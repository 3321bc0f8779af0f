import ScopeScript.Proofs.Run.Natives
import ScopeScript.Proofs.Session.Moments

/-!
# The global frame of a session

The global frame is the end of all chains of frames, so that every program and every native can see
it, and may try to assign to its names.  Yet it stays as it was made (`Session.globals_last`): what
it binds is constant, and nothing is ever run in it, since programs run in the frame of the session
and functions in frames of their own.
-/

namespace ScopeScript

/-- The frame has no parent, binds the builtin names, and binds all its names to constants. -/
structure Frame.IsGlobal (G : Frame) : Prop where
  parent : G.parent = none
  constant : ∀ x, G.binds x = true → G.isConstant x = true
  builtin : Builtin.globals.bindings <:+ G.bindings

theorem Frame.isGlobal_globals : Builtin.globals.IsGlobal where
  parent := rfl
  constant x := (Builtin.isConstant_globals x).trans
  builtin := List.suffix_rfl

theorem Frame.IsGlobal.add {G : Frame} (hG : G.IsGlobal) {b : Binding} (hb : b.constant = true) :
    (G.add b).IsGlobal where
  parent := hG.parent
  constant x hx := by
    rw [isConstant_add]
    obtain rfl | hx := (G.binds_add b x).1 hx
    · rw [if_pos rfl, hb, Bool.true_or]
    · rw [hG.constant x hx, Bool.or_true, ite_self]
  builtin := hG.builtin.trans (List.suffix_cons _ _)

namespace Store

open Session

variable {s t : Store} {G : Frame} {f : FrameId} {x : String} {v : Value}

/-- To assign to a name of the global frame is refused. -/
theorem assign_of_resolve_globals (hG : G.IsGlobal) (hs : s.frames[globals]? = some G)
    (hx : s.resolve f x = .ok globals) (v : Value) :
    s.assign f x v = .error (.fault (.constantAssigned x)) := by
  obtain ⟨frame, hframe, hbinds⟩ := exists_of_resolve hx
  obtain rfl : G = frame := Option.some.inj (hs.symm.trans hframe)
  simp only [assign, hx, bind, Except.bind, frame_eq_ok hs, if_pos (hG.constant x hbinds)]
  rfl

theorem globals_assign (hG : G.IsGlobal) (hs : s.frames[globals]? = some G)
    (h : s.assign f x v = .ok t) : t.frames[globals]? = some G := by
  obtain ⟨owner, frame, howner, hframe, -, rfl⟩ := exists_of_assign h
  -- A frame that was assigned to is not the global one, where this is refused.
  by_cases hglobal : owner = globals
  · rw [hglobal] at howner
    rw [assign_of_resolve_globals hG hs howner v] at h
    cases h
  · rwa [getElem?_put_of_ne hglobal]

theorem globals_declare {constant : Bool} (hs : s.frames[globals]? = some G) (hf : f ≠ globals)
    (h : s.declare f x v constant = .ok t) : t.frames[globals]? = some G := by
  obtain ⟨frame, hframe, -, rfl⟩ := exists_of_declare h
  rwa [getElem?_put_of_ne hf]

end Store

/-! ## The contract -/

/-- The global frame is the given one, and nothing is run in it. -/
def Contract.globals (G : Frame) : Contract where
  store s := s.frames[Session.globals]? = some G
  value _ _ := True
  frame _ f := f ≠ Session.globals
  expr _ := True
  stmt _ _ _ := True
  halt _ := True

theorem Contract.isLawful_globals {G : Frame} (hG : G.IsGlobal) : (globals G).IsLawful where
  value_mono _ h := h
  frame_mono _ h := h
  stmt_mono _ h := h
  null _ := trivial
  number _ _ := trivial
  object _ := trivial
  insert _ _ _ _ := trivial
  property _ _ := trivial
  parts _ _ _ := trivial
  dot _ := .inr trivial
  init _ := trivial
  statement _ := trivial
  fault _ := trivial
  tooDeep := trivial
  lookup _ _ _ := ⟨fun _ _ => trivial, fun _ _ => trivial⟩
  assign hs _ _ _ := ⟨fun _ => Store.globals_assign hG hs, fun _ _ => trivial⟩
  declare hs hf _ _ _ := ⟨fun _ => Store.globals_declare hs hf, fun _ _ => trivial⟩
  define := by
    intro s f x params body hs hf _ v
    have hnew : s.newClosure.2.frames[Session.globals]? = some G := hs
    exact ⟨hnew, fun _ ht => ⟨Store.globals_declare hnew hf ht, trivial⟩, fun _ _ => trivial⟩
  enter hs _ := by
    -- The frame of a call is a new one, and the global one there was already.
    have hsize := Store.lt_size_of_getElem? hs
    refine ⟨Store.getElem?_newFrame_of_eq_some hs _, ?_, fun _ _ => trivial⟩
    exact Nat.ne_of_gt hsize

theorem Contract.isKept_globals {G : Frame} (hG : G.IsGlobal) (host : Host) :
    (globals G).IsKept host :=
  (isLawful_globals hG).isKept (fun _ _ => trivial) (fun _ => trivial) host

/-! ## Sessions -/

namespace Session

variable {s t : Session}

/-- What is done with a session in which all natives are known. -/
inductive Step : Session → Session → Prop
  | load (s : Session) (source : String) : Step s (s.load source).2
  | run (s : Session) (depth : Nat) (p : Program) : Step s (s.run depth p).2
  | eval (s : Session) (depth : Nat) (source : String) : Step s (s.eval depth source).2

theorem top_ne_globals : top ≠ globals := by decide

theorem globals_run {G : Frame} (hG : G.IsGlobal) (hs : s.state.store.frames[globals]? = some G)
    (depth : Nat) (p : Program) : (s.run depth p).2.state.store.frames[globals]? = some G :=
  (store_run (Contract.isKept_globals hG s.host) hs top_ne_globals (fun _ _ => trivial)
    depth).1

theorem Step.globals {G : Frame} (hG : G.IsGlobal) (h : Step s t)
    (hs : s.state.store.frames[globals]? = some G) :
    t.state.store.frames[Session.globals]? = some G := by
  have hload (source : String) :
      (s.load source).2.state.store.frames[Session.globals]? = some G := by
    rwa [store_load]
  cases h with
  | load source => exact hload source
  | run depth p => exact globals_run hG hs depth p
  | eval depth source =>
    obtain ⟨-, -, -, heval⟩ | ⟨p, -, -, heval⟩ := s.eval_cases depth source
    · rw [heval]
      exact hload source
    · rw [heval]
      exact globals_run hG (hload source) depth p

theorem globals_of_steps {G : Frame} (hG : G.IsGlobal) (h : Relation.ReflTransGen Step s t)
    (hs : s.state.store.frames[globals]? = some G) :
    t.state.store.frames[globals]? = some G := by
  induction h with
  | refl => exact hs
  | tail _ step ih => exact step.globals hG ih

/-- However natives were added and programs run, the global frame of a session is one. -/
theorem Reached.exists_globals {natives : (List Value → Action) → Prop}
    {programs : Program → Prop} (h : s.Reached natives programs) :
    ∃ G : Frame, G.IsGlobal ∧ s.state.store.frames[globals]? = some G := by
  induction h with
  | new limit clock => exact ⟨Builtin.globals, Frame.isGlobal_globals, rfl⟩
  | @addNative s act _ name _ ih =>
    obtain ⟨G, hG, hs⟩ := ih
    obtain heq | ⟨t, hdeclare, heq⟩ := s.addNative_cases name act
    · rw [heq]
      exact ⟨G, hG, hs⟩
    · rw [heq]
      obtain ⟨frame, hframe, -, rfl⟩ := Store.exists_of_declare hdeclare
      obtain rfl : G = frame := Option.some.inj (hs.symm.trans hframe)
      exact ⟨_, hG.add rfl, Store.getElem?_put_self (Store.lt_size_of_getElem? hs) _⟩
  | @load s _ source ih =>
    rw [store_load]
    exact ih
  | @run s p _ depth _ ih =>
    obtain ⟨G, hG, hs⟩ := ih
    exact ⟨G, hG, globals_run hG hs depth p⟩

/-- The global frame of a session has no parent, and all its names are constants, the builtin ones
among them.  Whatever natives there are, it stays as it is however texts are read and programs run,
at every moment of the runs and when they end.  Nothing is evaluated in it, no native is called from
it, and to assign to one of its names is refused. -/
theorem globals_last (hs : s.Reached (fun _ => True) fun _ => True) :
    ∃ G : Frame, G.IsGlobal ∧
      (∀ t, Relation.ReflTransGen Step s t → t.state.store.frames[globals]? = some G ∧
        ∀ m, t.Passes (fun _ => True) m → m.frame ≠ globals ∧
          m.state.store.frames[globals]? = some G ∧
          ((m.run t.host).final m.state).store.frames[globals]? = some G) ∧
      ∀ u : Store, u.frames[globals]? = some G → ∀ (f : FrameId) (x : String) (v : Value),
        (u.resolve f x = .ok globals → u.assign f x v = .error (.fault (.constantAssigned x))) ∧
        (∀ w, u.assign f x v = .ok w → w.frames[globals]? = some G) ∧
        (f ≠ globals → ∀ constant w, u.declare f x v constant = .ok w →
          w.frames[globals]? = some G) := by
  obtain ⟨G, hG, hstore⟩ := hs.exists_globals
  refine ⟨G, hG, fun t hsteps => ?_, fun u hu f x v => ⟨fun hx => ?_, fun w => ?_, ?_⟩⟩
  · have ht := globals_of_steps hG hsteps hstore
    refine ⟨ht, fun m hm => ?_⟩
    have hC := Contract.isKept_globals hG t.host
    have hready : m.Ready (.globals G) := hm.ready hC ht top_ne_globals fun _ _ _ _ => trivial
    exact ⟨hready.frame, hready.store, (hready.ends hC).store⟩
  · exact Store.assign_of_resolve_globals hG hu hx v
  · exact Store.globals_assign hG hu
  · exact fun hf constant w => Store.globals_declare hu hf

/-- A native that declares a builtin name where it is called, and then assigns to another one. -/
theorem globals_last_native :
    let poke : List Value → Action := fun args =>
      .declare "true" (args.headD .null) false fun _ => .assign "print" .null .ofResult
    let s := (new none (.still ⟨0⟩)).addNative "poke" poke
    let p : Program := ⟨[.expr (.call (.name "poke") [.name "false"])]⟩
    let t := (s.run 1 p).2
    let m : Moment := ⟨1, top, .call (.native ⟨3, "poke"⟩) [.bool false], s.state⟩
    s.Reached (fun _ => True) (fun _ => True) ∧
      (s.run 1 p).1 = .error (.fault (.constantAssigned "print")) ∧
      t.state.store.lookup top "true" = .ok (.bool false) ∧
      t.state.store.frames[globals]? = s.state.store.frames[globals]? ∧
      s.Passes (fun _ => True) m ∧ m.frame ≠ globals := by
  intro poke s p t m
  have hs : s.Reached (fun _ => True) fun _ => True :=
    (Reached.new none (.still ⟨0⟩)).addNative "poke" trivial
  have hm : s.Passes (fun _ => True) m :=
    ⟨1, p, trivial, .head .first (.head .expr (.single (.call rfl rfl)))⟩
  obtain ⟨G, -, hlast, -⟩ := globals_last hs
  obtain ⟨hstart, hmoments⟩ := hlast s .refl
  have hend : t.state.store.frames[globals]? = some G := (hlast t (.single (.run s 1 p))).1
  exact ⟨hs, rfl, rfl, hend.trans hstart.symm, hm, (hmoments m hm).1⟩

end Session

end ScopeScript
