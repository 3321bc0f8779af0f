import ScopeScript.Proofs.Run.Forwarding
import ScopeScript.Proofs.Session.Moments
import ScopeScript.Proofs.Store.SelfBound

/-!
# Functions in sessions

Whatever is run in a session, and whatever natives there are that hand on only values that they were
given or found, each function that occurs is bound to its name in the frame that it captured.
-/

namespace ScopeScript

/-! ## The contract -/

/-- Every function is bound to its name in the frame that it captured. -/
def Contract.selfNamed : Contract where
  store := Store.SelfNamed
  value s v := ∀ c ∈ v.closures, s.SelfBound c
  frame _ _ := True
  expr _ := True
  stmt _ _ _ := True
  halt _ := True

namespace Contract

theorem isLawful_selfNamed : selfNamed.IsLawful where
  value_mono hst hv c hc := hst.selfBound (hv c hc)
  frame_mono _ h := h
  stmt_mono _ h := h
  null _ _ hc := nomatch hc
  number _ _ _ hc := nomatch hc
  object _ _ hc := nomatch hc
  insert _ _ hfields hv c hc := by
    obtain hc | hc := List.mem_append.1 (Fields.closures_insert _ _ _ hc)
    · exact hv c hc
    · exact hfields c hc
  property hfields key c hc := hfields c (Fields.closures_property _ key hc)
  parts _ _ _ := trivial
  dot _ := .inr trivial
  init _ := trivial
  statement _ := trivial
  fault _ := trivial
  tooDeep := trivial
  lookup hs _ x := by
    refine ⟨fun v hv c hc => ?_, fun _ _ => trivial⟩
    obtain ⟨owner, frame, b, hframe, hb, rfl⟩ := Store.exists_of_lookup hv
    exact hs.selfBound owner frame hframe c (frame.closures_of_find? hb hc)
  assign hs _ hv _ := ⟨fun _ ht => hs.assign hv ht, fun _ _ => trivial⟩
  declare hs _ hv _ _ := ⟨fun _ ht => hs.declare hv ht, fun _ _ => trivial⟩
  define hs _ _ := by
    refine ⟨hs.newClosure, fun t ht => ?_, fun _ _ => trivial⟩
    obtain ⟨ht, hc⟩ := hs.define ht
    exact ⟨ht, fun c hmem => List.mem_singleton.1 hmem ▸ hc⟩
  enter hs hc := by
    obtain ⟨frame, hframe, -⟩ := hc _ List.mem_cons_self
    exact ⟨hs.newFrame (Store.lt_size_of_getElem? hframe), trivial, fun _ _ => trivial⟩

theorem isFunctionwise_selfNamed : selfNamed.IsFunctionwise where
  toIsLawful := isLawful_selfNamed
  value_iff := by simp [selfNamed, Value.closures]
  anyFault _ := trivial
  resolve _ _ _ _ _ := trivial
  missing _ _ _ _ := trivial

theorem isKept_selfNamed {host : Host} (hhost : host.Forwarding) : selfNamed.IsKept host :=
  isFunctionwise_selfNamed.isKept (hhost.forwardingWith []) fun _ _ hc => nomatch hc

end Contract

/-! ## Sessions -/

theorem Builtin.selfNamed_store : Builtin.store.SelfNamed := by
  have hnone (c : Closure) (hc : Builtin.store.SelfBound c) : False := by
    obtain ⟨frame, hframe, hc⟩ := hc.mem_closures
    obtain ⟨-, rfl⟩ := Merged.eq_globals hframe
    cases hc
  refine ⟨Merged.parented_store, fun f frame hframe c hc => ?_, fun c hc => (hnone c hc).elim,
    fun c _ hc => (hnone c hc).elim⟩
  obtain ⟨-, rfl⟩ := Merged.eq_globals hframe
  cases hc

/-- The frame that is made for a call lies below the one that the function captured. -/
theorem Run.parent_openScope {c : Closure} {args : List Value} {s : State} {scope : FrameId}
    (h : (openScope c args).outcome s = .ok scope) :
    ∃ frame, ((openScope c args).final s).store.frames[scope]? = some frame ∧
      frame.parent = some c.frame := by
  unfold openScope at h ⊢
  obtain ⟨_, hemit, h⟩ := outcome_ok_of_bind h
  rw [final_bind_of_ok hemit]
  obtain ⟨scope', hnew, h⟩ := outcome_ok_of_bind h
  rw [final_bind_of_ok hnew]
  obtain ⟨_, hbind, h⟩ := outcome_ok_of_bind h
  rw [final_bind_of_ok hbind]
  obtain rfl : scope' = scope := Except.ok.inj h
  obtain rfl : s.store.frames.size = scope' := Except.ok.inj hnew
  let t := (newFrame (some c.frame)).final ((emit (.callingFunction c.name args.length)).final s)
  have hnew : t.store.frames[s.store.frames.size]? = some (.empty (some c.frame)) :=
    Store.getElem?_newFrame_size s.store (some c.frame)
  have hparams : Composed Builtin.host (fun _ => True)
      (bind s.store.frames.size (c.params.zip args)) := .bindAll trivial _
  obtain ⟨frame, hframe, hkeeps⟩ := hparams.keeps t _ _ hnew
  exact ⟨frame, hframe, hkeeps.parent⟩

theorem Run.Composed.openScope (host : Host) (own : FrameId → Prop) (c : Closure)
    (args : List Value) : Composed host own (Run.openScope c args) :=
  .bind (.emit _) fun _ => .within _ fun _ => .bind (.bindAll (.inr rfl) _) fun _ => .pure _

namespace Session

variable {s : Session}

theorem admits_selfNamed (programs : Program → Prop) :
    Admits .selfNamed Host.Forwarding Action.Forwarding programs where
  kept _ := Contract.isKept_selfNamed
  builtin := Builtin.forwarding_host
  add _ name _ hhost := hhost.add name
  store := Builtin.selfNamed_store.newFrame Nat.one_pos
  inGlobals := trivial
  inTop := trivial
  native _ _ hc := nomatch hc
  program _ _ _ _ := trivial

/-- In a session with such natives all functions are bound to their names. -/
theorem Reached.selfNamed {programs : Program → Prop} (h : s.Reached Action.Forwarding programs) :
    s.state.store.SelfNamed ∧ s.host.Forwarding :=
  (admits_selfNamed programs).reached h

/-- In a session with such natives, whatever programs were run there and however they ended, each
function that is to be seen, at any moment of a run, is bound to its name in the frame that it
captured, now and later.  So its name denotes it wherever nothing else of that name is nearer, as in
its own body unless the frame of the call binds the name.  Functions are equal just if they captured
the same frame and have the same name. -/
theorem functions_selfBound (hs : s.Reached Action.Forwarding fun _ => True) {t : Store} {v : Value}
    {c : Closure} (hv : s.Shows (fun _ => True) t v) (hc : c ∈ v.closures) :
    (∀ u, t.Keeps u → u.SelfBound c) ∧
      (∀ u f, t.Keeps u → u.Parented → u.Unshadowed c.name c.frame f →
        u.lookup f c.name = .ok (.function c)) ∧
      (∀ (st : State) args scope u, st.store = t → (Run.openScope c args).outcome st = .ok scope →
        ((Run.openScope c args).final st).store.Keeps u → u.Parented → ¬u.Binds scope c.name →
          u.lookup scope c.name = .ok (.function c)) ∧
      ∀ w d, s.Shows (fun _ => True) t w → d ∈ w.closures →
        ((Value.function c).equal (.function d) = true ↔ c.frame = d.frame ∧ c.name = d.name) := by
  obtain ⟨hstore, hhost⟩ := hs.selfNamed
  have hC := Contract.isKept_selfNamed hhost
  have hshown {w : Value} (hw : s.Shows (fun _ => True) t w) :
      t.SelfNamed ∧ ∀ d ∈ w.closures, t.SelfBound d :=
    hw.allowed hC hstore trivial (fun _ _ _ _ => trivial) fun hu hframe b hb d hd =>
      hu.selfBound _ _ hframe d (List.mem_flatMap.2 ⟨b, hb, hd⟩)
  obtain ⟨ht, hall⟩ := hshown hv
  have hself := hall c hc
  refine ⟨fun u htu => htu.selfBound hself, fun u f htu hu => (htu.selfBound hself).lookup hu, ?_,
    fun w d hw hd => ht.equal_iff hself ((hshown hw).2 d hd)⟩
  rintro st args scope u rfl hopen hu hparented hfree
  obtain ⟨frame, hframe, hparent⟩ := Run.parent_openScope hopen
  obtain ⟨later, hlater, hkeeps⟩ := hu scope frame hframe
  have hlast : st.store.Keeps u :=
    ((Run.Composed.openScope s.host (fun _ => True) c args).keeps st).trans hu
  refine (hlast.selfBound hself).lookup hparented (.outward hlater ?_ ?_ .here)
  · rw [hkeeps.parent, hparent]
  · rwa [Store.binds_iff_of_getElem? hlater, Bool.not_eq_true] at hfree

/-- A function that a native was given in an object, and declared under another name. -/
theorem functions_selfBound_kept :
    let keep : List Value → Action := fun
      | [v] => .declare "kept" v false .ofResult
      | _ => .done .null
    let p : Program :=
      ⟨[.define "f" [] [], .expr (.call (.name "keep") [.object [.keyed "a" (.name "f")]])]⟩
    let s := (((new none (.still ⟨0⟩)).addNative "keep" keep).run 2 p).2
    let c : Closure := ⟨0, "f", [], [], 1⟩
    s.Reached Action.Forwarding (fun _ => True) ∧
      s.Shows (fun _ => True) s.state.store (.object [("a", .function c)]) ∧
      s.state.store.lookup top "f" = .ok (.function c) := by
  intro keep p s c
  have hkeep : Action.Forwarding keep := by
    intro args
    unfold keep
    split
    · exact .declare (by simp) (fun v => .done (List.subset_append_left _ _)) fun f => .fail f
    · exact .done (List.nil_subset _)
  have hs : s.Reached Action.Forwarding (fun _ => True) :=
    ((Reached.new none (.still ⟨0⟩)).addNative "keep" hkeep).run 2 trivial
  have hstart : s.Passes (fun _ => True) ⟨0, top, .body [], s.state⟩ := ⟨0, ⟨[]⟩, trivial, .refl⟩
  have hframe : s.state.store.frames[top]? = some
      ⟨some 0, [("kept", .object [("a", .function c)]), ("f", .function c)], ["f"]⟩ := by
    rfl
  have hshown : s.Shows (fun _ => True) s.state.store (.object [("a", .function c)]) :=
    .bound hstart hframe List.mem_cons_self
  refine ⟨hs, hshown, ?_⟩
  have hmain := functions_selfBound hs hshown (c := c) (by simp [Value.closures, Fields.closures])
  exact hmain.2.1 s.state.store top (.refl _) hs.selfNamed.1.parented .here

end Session

end ScopeScript
