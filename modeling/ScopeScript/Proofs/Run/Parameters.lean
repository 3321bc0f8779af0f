import Mathlib.Data.List.Induction
import Mathlib.Data.List.Nodup
import ScopeScript.Proofs.Run.Moment

/-!
# Parameters of calls

A call with as many arguments as there are parameters makes a frame and declares the parameters in
it one after the other.  This goes through just if no name is repeated, and then the body is run in
the frame; or else it ends at the first parameter that repeats an earlier one.  All that a call
which does not come to its body leaves behind is that frame, which nothing refers to
(`Moment.next_call_iff`, `Run.call_of_not_nodup`).
-/

namespace ScopeScript

/-- A list with repetitions has a first element that repeats an earlier one. -/
theorem exists_first_repeated {α : Type} {l : List α} (h : ¬l.Nodup) :
    ∃ before x after, l = before ++ x :: after ∧ before.Nodup ∧ x ∈ before := by
  induction l using List.reverseRecOn with
  | nil => exact absurd List.nodup_nil h
  | append_singleton l y ih =>
    by_cases hl : l.Nodup
    · refine ⟨l, y, [], rfl, hl, Classical.byContradiction fun hy => h ?_⟩
      rw [← List.concat_eq_append]
      exact (List.nodup_concat l y).2 ⟨hy, hl⟩
    · obtain ⟨before, x, after, rfl, hbefore, hx⟩ := ih hl
      exact ⟨before, x, after ++ [y], by simp, hbefore, hx⟩

/-! ## Frames with parameters -/

namespace Frame

variable {frame : Frame} {params : List (String × Value)} {x : String} {v : Value}

/-- The frame with the parameters bound in it, the last one at the head. -/
def withParams (frame : Frame) (params : List (String × Value)) : Frame :=
  params.foldl (fun frame param => frame.add ⟨param.1, param.2, false⟩) frame

theorem withParams_cons (frame : Frame) (param : String × Value) (params : List (String × Value)) :
    frame.withParams (param :: params) =
      (frame.add ⟨param.1, param.2, false⟩).withParams params := rfl

@[simp] theorem parent_withParams (frame : Frame) (params : List (String × Value)) :
    (frame.withParams params).parent = frame.parent := by
  induction params generalizing frame with
  | nil => rfl
  | cons param params ih =>
    rw [withParams_cons, ih]
    rfl

theorem bindings_withParams (frame : Frame) (params : List (String × Value)) :
    (frame.withParams params).bindings = params.reverse ++ frame.bindings := by
  induction params generalizing frame with
  | nil => rfl
  | cons param params ih =>
    rw [withParams_cons, ih, List.reverse_cons, List.append_assoc]
    rfl

/-- No parameter is a constant. -/
theorem constants_withParams (frame : Frame) (params : List (String × Value)) :
    (frame.withParams params).constants = frame.constants := by
  induction params generalizing frame with
  | nil => rfl
  | cons param params ih =>
    rw [withParams_cons, ih]
    rfl

theorem find?_withParams_of_not_mem (hx : x ∉ params.map Prod.fst) :
    (frame.withParams params).find? x = frame.find? x := by
  induction params generalizing frame with
  | nil => rfl
  | cons param params ih =>
    rw [List.map_cons, List.mem_cons, not_or] at hx
    rw [withParams_cons, ih hx.2, find?_add, if_neg (Ne.symm hx.1)]

theorem find?_withParams_of_mem (hfree : frame.isConstant x = false)
    (hnodup : (params.map Prod.fst).Nodup) (hx : (x, v) ∈ params) :
    (frame.withParams params).find? x = some ⟨x, v, false⟩ := by
  induction params generalizing frame with
  | nil => nomatch hx
  | cons param params ih =>
    obtain ⟨hparam, hnodup⟩ := List.nodup_cons.1 hnodup
    rw [withParams_cons]
    obtain rfl | hx := List.mem_cons.1 hx
    · rw [find?_withParams_of_not_mem hparam, find?_add, if_pos rfl, hfree]
      rfl
    · exact ih hfree hnodup hx

/-- What a frame of parameters binds: the parameters to the arguments in their places. -/
theorem find?_withParams_zip_iff {names : List String} {args : List Value} {b : Binding}
    (hlength : args.length = names.length) (hnodup : names.Nodup) (parent : Option FrameId) :
    ((empty parent).withParams (names.zip args)).find? x = some b ↔
      ∃ (i : Nat) (v : Value), names[i]? = some x ∧ args[i]? = some v ∧ b = ⟨x, v, false⟩ := by
  have hnames : (names.zip args).map Prod.fst = names :=
    List.map_fst_zip (Nat.le_of_eq hlength.symm)
  rw [← hnames] at hnodup
  constructor
  · intro hb
    by_cases hx : x ∈ (names.zip args).map Prod.fst
    · obtain ⟨⟨y, v⟩, hmem, rfl⟩ := List.mem_map.1 hx
      rw [find?_withParams_of_mem rfl hnodup hmem] at hb
      obtain ⟨i, hi⟩ := List.mem_iff_getElem?.1 hmem
      obtain ⟨hname, harg⟩ := List.getElem?_zip_eq_some.1 hi
      exact ⟨i, v, hname, harg, (Option.some.inj hb).symm⟩
    · rw [find?_withParams_of_not_mem hx] at hb
      nomatch hb
  · rintro ⟨i, v, hname, harg, rfl⟩
    have hi : (names.zip args)[i]? = some (x, v) := List.getElem?_zip_eq_some.2 ⟨hname, harg⟩
    exact find?_withParams_of_mem rfl hnodup (List.mem_iff_getElem?.2 ⟨i, hi⟩)

end Frame

/-! ## Declaring parameters -/

namespace Run

section Declarations

variable {g : FrameId} {frame : Frame} {s : State} {x : String} {v : Value} {b : Binding}
  {params : List (String × Value)}

theorem declare_of_free (hframe : s.store.frames[g]? = some frame) (hx : frame.find? x = none)
    (constant : Bool) :
    declare g x v constant s =
      .ok v { s with store := s.store.put g (frame.add ⟨x, v, constant⟩) } := by
  rw [declare_eq_rebind, rebind_apply, Store.declare_eq hframe, hx]

theorem declare_of_bound (hframe : s.store.frames[g]? = some frame) (hx : frame.find? x = some b)
    (constant : Bool) :
    declare g x v constant s = .error (.fault (.redefinedVariable x)) s := by
  rw [declare_eq_rebind, rebind_apply, Store.declare_eq hframe, hx]

theorem bind_cons (g : FrameId) (param : String × Value) (params : List (String × Value)) :
    Run.bind g (param :: params) =
      declare g param.1 param.2 false >>= fun _ => Run.bind g params := rfl

theorem bind_append (g : FrameId) (params rest : List (String × Value)) :
    Run.bind g (params ++ rest) = Run.bind g params >>= fun _ => Run.bind g rest := by
  induction params with
  | nil => rfl
  | cons param params ih => rw [List.cons_append, bind_cons, bind_cons, ih, bind_assoc]

/-- Parameters with names of their own, which the frame does not bind yet, are all declared. -/
theorem bind_of_free (hframe : s.store.frames[g]? = some frame)
    (hnodup : (params.map Prod.fst).Nodup)
    (hfree : ∀ x ∈ params.map Prod.fst, frame.find? x = none) :
    Run.bind g params s = .ok () { s with store := s.store.put g (frame.withParams params) } := by
  induction params generalizing frame s with
  | nil =>
    obtain ⟨hg, rfl⟩ := Array.getElem?_eq_some_iff.1 hframe
    have hsame : s.store.put g s.store.frames[g] = s.store := by
      simp [Store.put, Array.setIfInBounds, hg]
    rw [Frame.withParams, List.foldl_nil, hsame]
    rfl
  | cons param params ih =>
    obtain ⟨x, v⟩ := param
    obtain ⟨hx, hnodup⟩ := List.nodup_cons.1 hnodup
    obtain ⟨hxfree, hfree⟩ := List.forall_mem_cons.1 hfree
    let next := s.store.put g (frame.add ⟨x, v, false⟩)
    have hnext : next.frames[g]? = some (frame.add ⟨x, v, false⟩) :=
      Store.getElem?_put_self (Store.lt_size_of_getElem? hframe) _
    have hfree (y : String) (hy : y ∈ params.map Prod.fst) :
        (frame.add ⟨x, v, false⟩).find? y = none := by
      have hxy : x ≠ y := fun hxy => hx (hxy ▸ hy)
      rw [Frame.find?_add, if_neg hxy]
      exact hfree y hy
    rw [bind_cons, bind_of_ok (declare_of_free hframe hxfree false), ih hnext hnodup hfree,
      Frame.withParams_cons]
    simp [Store.put]

end Declarations

/-! ## Frames of calls -/

variable (c : Closure) (args : List Value) (s : State)

/-- The state of a call with some parameters declared in its frame. -/
def opened (params : List (String × Value)) : State :=
  { s with
    store := { s.store with
      frames := s.store.frames.push ((Frame.empty (some c.frame)).withParams params) }
    events := s.events.push (.callingFunction c.name args.length) }

theorem openScope_apply :
    openScope c args s =
      (Run.bind s.store.frames.size (c.params.zip args) >>= fun _ => pure s.store.frames.size)
        (opened c args s []) := rfl

theorem getElem?_opened_of_lt (params : List (String × Value)) {g : FrameId}
    (hg : g < s.store.frames.size) :
    (opened c args s params).store.frames[g]? = s.store.frames[g]? := by
  rw [opened, Array.getElem?_push_lt hg, Array.getElem?_eq_getElem hg]

variable {c args s} {params : List (String × Value)}

theorem bind_opened (hnodup : (params.map Prod.fst).Nodup) :
    Run.bind s.store.frames.size params (opened c args s []) = .ok () (opened c args s params) := by
  have hframe : (opened c args s []).store.frames[s.store.frames.size]? =
      some (.empty (some c.frame)) := Array.getElem?_push_size
  rw [bind_of_free hframe hnodup fun _ _ => rfl]
  simp [opened, Store.put, Frame.withParams, Array.setIfInBounds, Array.set_push]

theorem openScope_of_nodup (hlength : args.length = c.params.length) (hnodup : c.params.Nodup) :
    openScope c args s = .ok s.store.frames.size (opened c args s (c.params.zip args)) := by
  have hnames : (c.params.zip args).map Prod.fst = c.params :=
    List.map_fst_zip (Nat.le_of_eq hlength.symm)
  rw [openScope_apply, bind_of_ok (bind_opened (hnames.symm ▸ hnodup))]
  rfl

/-- Where a name is repeated, the parameters before it have been declared. -/
theorem openScope_of_repeated {before after : List String} {x : String}
    (hlength : args.length = c.params.length) (hparams : c.params = before ++ x :: after)
    (hbefore : before.Nodup) (hx : x ∈ before) :
    ∃ bound, openScope c args s =
      .error (.fault (.redefinedVariable x)) (opened c args s bound) := by
  have hnames : (c.params.zip args).map Prod.fst = before ++ x :: after :=
    (List.map_fst_zip (Nat.le_of_eq hlength.symm)).trans hparams
  obtain ⟨bound, repeated, hzip, rfl, hrepeated⟩ := List.map_eq_append_iff.1 hnames
  obtain ⟨⟨y, v⟩, rest, rfl, rfl, -⟩ := List.map_eq_cons_iff.1 hrepeated
  obtain ⟨⟨y, w⟩, hmem, rfl⟩ := List.mem_map.1 hx
  have hframe : (opened c args s bound).store.frames[s.store.frames.size]? =
      some ((Frame.empty (some c.frame)).withParams bound) := Array.getElem?_push_size
  have hempty : (Frame.empty (some c.frame)).isConstant y = false := rfl
  have hfound := Frame.find?_withParams_of_mem hempty hbefore hmem
  refine ⟨bound, ?_⟩
  rw [openScope_apply, hzip, bind_append, bind_assoc, bind_of_ok (bind_opened hbefore), bind_cons,
    bind_assoc, bind_of_error (declare_of_bound hframe hfound false)]

/-- A repeated name among the parameters is found at the first parameter that repeats one. -/
theorem openScope_of_not_nodup (hlength : args.length = c.params.length)
    (hnodup : ¬c.params.Nodup) :
    ∃ before x after bound, c.params = before ++ x :: after ∧ before.Nodup ∧ x ∈ before ∧
      openScope c args s =
        .error (.fault (.redefinedVariable x)) (opened c args s bound) := by
  obtain ⟨before, x, after, hparams, hbefore, hx⟩ := exists_first_repeated hnodup
  obtain ⟨bound, hopen⟩ := openScope_of_repeated hlength hparams hbefore hx
  exact ⟨before, x, after, bound, hparams, hbefore, hx, hopen⟩

/-! ## Calls of functions -/

section Calls

variable (host : Host) (d : Nat) (f : FrameId)

theorem call_of_length_ne (hlength : args.length ≠ c.params.length) :
    call host (d + 1) (.function c) args f s =
      .error (.fault (.argumentCount c.name c.params.length args.length)) s := by
  rw [call, apply, enter, if_neg hlength]
  rfl

theorem call_of_nodup (hlength : args.length = c.params.length) (hnodup : c.params.Nodup) :
    call host (d + 1) (.function c) args f s =
      Stmt.runAll (call host d) s.store.frames.size .null c.body
        (opened c args s (c.params.zip args)) := by
  rw [call, apply, enter_eq _ hlength, bind_of_ok (openScope_of_nodup hlength hnodup)]

theorem call_of_not_nodup (hlength : args.length = c.params.length) (hnodup : ¬c.params.Nodup) :
    ∃ before x after bound, c.params = before ++ x :: after ∧ before.Nodup ∧ x ∈ before ∧
      call host (d + 1) (.function c) args f s =
        .error (.fault (.redefinedVariable x)) (opened c args s bound) := by
  obtain ⟨before, x, after, bound, hparams, hbefore, hx, hopen⟩ :=
    openScope_of_not_nodup (s := s) hlength hnodup
  refine ⟨before, x, after, bound, hparams, hbefore, hx, ?_⟩
  rw [call, apply, enter_eq _ hlength, bind_of_error hopen]

end Calls

end Run

/-- What comes inside of a call of a function is its body, in the frame with the parameters. -/
theorem Moment.next_call_iff {host : Host} {d : Nat} {f : FrameId} {c : Closure}
    {args : List Value} {s : State} {m' : Moment} :
    Next host ⟨d + 1, f, .call (.function c) args, s⟩ m' ↔
      (args.length = c.params.length ∧ c.params.Nodup) ∧
        m' = ⟨d, s.store.frames.size, .body c.body, Run.opened c args s (c.params.zip args)⟩ := by
  constructor
  · intro h
    cases h with
    | enter hlength h =>
      have hnodup : c.params.Nodup := by
        refine Classical.byContradiction fun hnodup => ?_
        obtain ⟨_, _, _, _, -, -, -, hopen⟩ := Run.openScope_of_not_nodup (s := s) hlength hnodup
        rw [Run.outcome, hopen] at h
        cases h
      have hopen := Run.openScope_of_nodup (s := s) hlength hnodup
      rw [Run.outcome, hopen] at h
      obtain rfl := Except.ok.inj h
      rw [Run.final, hopen]
      exact ⟨⟨hlength, hnodup⟩, rfl⟩
  · rintro ⟨⟨hlength, hnodup⟩, rfl⟩
    have hopen := Run.openScope_of_nodup (s := s) hlength hnodup
    have hscope : (Run.openScope c args).outcome s = .ok s.store.frames.size := by
      rw [Run.outcome, hopen]
    have henter : Next host ⟨d + 1, f, .call (.function c) args, s⟩ _ := .enter hlength hscope
    rwa [Run.final, hopen] at henter

namespace Run

/-- The body of a function that is called is run just if there are as many arguments as parameters
and no parameter is repeated.  Then the call is the run of the body in a new frame, below the one
that the function captured, which binds each parameter to the argument in its place, and nothing
else, and not as a constant.  Otherwise the call fails: if the numbers differ since they do, and
else since the first parameter that repeats an earlier one is bound already.  A call that fails so
prints nothing and leaves all frames as they are. -/
theorem calls_bind_parameters (host : Host) (d : Nat) (f : FrameId) (c : Closure)
    (args : List Value) (s : State) :
    let m : Moment := ⟨d + 1, f, .call (.function c) args, s⟩
    ((∃ m', m.Next host m') ↔ args.length = c.params.length ∧ c.params.Nodup) ∧
      (∀ m', m.Next host m' →
        m.run host s = m'.run host m'.state ∧
          ∃ frame : Frame,
            m' = ⟨d, s.store.frames.size, .body c.body,
              { s with
                store := { s.store with frames := s.store.frames.push frame }
                events := s.events.push (.callingFunction c.name args.length) }⟩ ∧
            frame.parent = some c.frame ∧ frame.constants = [] ∧
            frame.bindings.length = c.params.length ∧
            ∀ x b, frame.find? x = some b ↔
              ∃ (i : Nat) (v : Value),
                c.params[i]? = some x ∧ args[i]? = some v ∧ b = ⟨x, v, false⟩) ∧
      (args.length ≠ c.params.length →
        (m.run host).outcome s =
          .error (.fault (.argumentCount c.name c.params.length args.length))) ∧
      (args.length = c.params.length → ¬c.params.Nodup →
        ∃ before x after, c.params = before ++ x :: after ∧ before.Nodup ∧ x ∈ before ∧
          (m.run host).outcome s = .error (.fault (.redefinedVariable x))) ∧
      (¬(args.length = c.params.length ∧ c.params.Nodup) →
        ((m.run host).final s).sink = s.sink ∧
          ∀ g < s.store.frames.size,
            ((m.run host).final s).store.frames[g]? = s.store.frames[g]?) := by
  intro m
  have hrun : m.run host = call host (d + 1) (.function c) args f := rfl
  rw [hrun]
  have hrepeated (hlength : args.length = c.params.length) (hnodup : ¬c.params.Nodup) :=
    call_of_not_nodup (s := s) host d f hlength hnodup
  refine ⟨⟨fun ⟨_, h⟩ => (Moment.next_call_iff.1 h).1,
      fun h => ⟨_, Moment.next_call_iff.2 ⟨h, rfl⟩⟩⟩,
    fun m' h => ?_, fun hlength => ?_, fun hlength hnodup => ?_, fun hnot => ?_⟩
  · obtain ⟨⟨hlength, hnodup⟩, rfl⟩ := Moment.next_call_iff.1 h
    refine ⟨call_of_nodup host d f hlength hnodup, _, rfl, Frame.parent_withParams _ _,
      Frame.constants_withParams _ _, ?_,
      fun x b => Frame.find?_withParams_zip_iff hlength hnodup _⟩
    simp [Frame.bindings_withParams, Frame.empty, hlength]
  · rw [outcome, call_of_length_ne host d f hlength]
  · obtain ⟨before, x, after, bound, hparams, hbefore, hx, hcall⟩ := hrepeated hlength hnodup
    refine ⟨before, x, after, hparams, hbefore, hx, ?_⟩
    rw [outcome, hcall]
  · by_cases hlength : args.length = c.params.length
    · obtain ⟨_, _, _, bound, -, -, -, hcall⟩ :=
        hrepeated hlength fun hnodup => hnot ⟨hlength, hnodup⟩
      rw [final, hcall]
      exact ⟨rfl, fun g hg => getElem?_opened_of_lt c args s bound hg⟩
    · rw [final, call_of_length_ne host d f hlength]
      exact ⟨rfl, fun _ _ => rfl⟩

/-- Two parameters are bound, and a parameter twice is not. -/
theorem calls_bind_parameters_twice :
    let s : State := .ofStore Builtin.store none (.still ⟨0⟩)
    let c : Closure := ⟨0, "f", ["x", "y"], [], 0⟩
    let args : List Value := [.null, .bool true]
    let m : Moment := ⟨1, 0, .call (.function c) args, s⟩
    let twice : Moment := ⟨1, 0, .call (.function { c with params := ["x", "x"] }) args, s⟩
    (∃ m', m.Next Builtin.host m') ∧ (¬∃ m', twice.Next Builtin.host m') ∧
      (twice.run Builtin.host).outcome s = .error (.fault (.redefinedVariable "x")) ∧
      ((twice.run Builtin.host).final s).sink = s.sink := by
  intro s c args m twice
  have hnodup : ¬["x", "x"].Nodup := by decide
  obtain ⟨henters, -⟩ := calls_bind_parameters Builtin.host 0 0 c args s
  obtain ⟨hiff, -, -, hrepeated, hkept⟩ :=
    calls_bind_parameters Builtin.host 0 0 { c with params := ["x", "x"] } args s
  obtain ⟨before, x, after, hparams, -, hx, hfails⟩ := hrepeated rfl hnodup
  have hlist : ["x", "x"] = before ++ x :: after := hparams
  have hmem : x ∈ ["x", "x"] := hlist ▸ List.mem_append_left _ hx
  obtain rfl : x = "x" := by simpa using hmem
  exact ⟨henters.2 ⟨rfl, by decide⟩, fun h => hnodup (hiff.1 h).2, hfails,
    (hkept fun h => hnodup h.2).1⟩

end Run

end ScopeScript
