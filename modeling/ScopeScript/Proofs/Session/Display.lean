import ScopeScript.Proofs.Session.Joining
import ScopeScript.Proofs.Syntax.Display

/-!
# Display texts in sessions

The text that is printed for data is a program that has the data as its value, in every session that
does not shadow the names of the values in it, and it leaves the session as it was
(`Session.eval_display`).
-/

namespace ScopeScript

/-! ## Values of literals -/

/-- The names of null and of the truth values are looked up as these. -/
structure Store.NamesValues (s : Store) (f : FrameId) : Prop where
  null : s.lookup f "null" = .ok .null
  bool (b : Bool) : s.lookup f (if b then "true" else "false") = .ok (.bool b)

namespace Run

variable {s : State} {frame : FrameId} {call : Caller}

/-- The entries of a literal are added in the order of their keys. -/
theorem evalProperties_literal {done fields : Fields}
    (hsorted : (done ++ fields).Pairwise (·.1 < ·.1))
    (h : ∀ field ∈ fields, field.2.literal.eval call frame s = .ok field.2 s) :
    evalProperties call frame done (Fields.literal fields) s = .ok (done ++ fields) s := by
  induction fields generalizing done with
  | nil =>
    rw [List.append_nil]
    rfl
  | cons field rest ih =>
    obtain ⟨key, v⟩ := field
    obtain ⟨hv, hrest⟩ := List.forall_mem_cons.1 h
    have hlast : ∀ entry ∈ done, entry.1 < key := fun entry hentry =>
      (List.pairwise_append.1 hsorted).2.2 entry hentry (key, v) List.mem_cons_self
    rw [List.append_cons done] at hsorted ⊢
    rw [Fields.literal, evalProperties, bind_of_ok hv, Fields.insert_last v hlast]
    exact ih hsorted hrest

/-- Evaluating the expression for data gives the data, and changes nothing. -/
theorem eval_literal {v : Value} (hv : v.IsData) (hs : s.store.NamesValues frame) :
    v.literal.eval call frame s = .ok v s := by
  induction hv with
  | null => rw [Value.literal, Expr.eval, lookup_apply, hs.null]
  | number hx => rfl
  | bool b => rw [Value.literal, Expr.eval, lookup_apply, hs.bool]
  | @object fields hsorted _ _ ih =>
    have hfields : evalProperties call frame [] (Fields.literal fields) s = .ok fields s :=
      evalProperties_literal hsorted ih
    rw [Value.literal, Expr.eval, bind_of_ok hfields]
    rfl

end Run

/-! ## Names of the global frame -/

namespace Store

variable {s : Store} {f p : FrameId} {frame parent : Frame} {b : Binding} {x : String}

/-- A name that a frame does not bind is looked up in its parent. -/
theorem lookup_of_parent (hf : s.frames[f]? = some frame) (hframe : frame.parent = some p)
    (hx : frame.find? x = none) (hlt : p < f) (hp : s.frames[p]? = some parent)
    (hb : parent.find? x = some b) : s.lookup f x = .ok b.value := by
  have htwo : 2 ≤ s.frames.size :=
    Nat.lt_of_le_of_lt (Nat.succ_le_of_lt (Nat.zero_lt_of_lt hlt)) (lt_size_of_getElem? hf)
  obtain ⟨n, hn⟩ := Nat.exists_eq_add_of_le' htwo
  have howner : s.resolve f x = .ok p := by
    simp [resolve, hn, resolveWithin, frame_eq_ok hf, frame_eq_ok hp, Frame.binds, hx, hframe, hb,
      bind, Except.bind, pure, Except.pure]
  simp [lookup, howner, frame_eq_ok hp, hb, bind, Except.bind, pure, Except.pure]

end Store

namespace Session

variable {s : Session} {limit : Option Nat} {clock : Clock}

/-- What the global frame binds at the start is seen from the frame of a session, whatever was run,
unless that frame binds the name too. -/
theorem lookup_builtin
    (hs : Relation.ReflTransGen Store.Step (new limit clock).state.store s.state.store)
    {b : Binding} (hb : Builtin.globals.find? b.name = some b)
    (hshadow : ¬s.state.store.Binds top b.name) :
    s.state.store.lookup top b.name = .ok b.value := by
  have hkeeps := Store.keeps_of_steps hs
  obtain ⟨frame, hframe, hkept⟩ := hkeeps top (.empty (some globals)) rfl
  obtain ⟨parent, hparent, hkept'⟩ := hkeeps globals Builtin.globals rfl
  obtain ⟨c, hc, -, hvalue⟩ := hkept'.bindings _ _ hb
  have hfree : frame.find? b.name = none := by
    rw [Store.binds_iff_of_getElem? hframe] at hshadow
    simpa [Frame.binds] using hshadow
  have hconstant := Builtin.isConstant_of_find?_globals hb
  rw [Store.lookup_of_parent hframe hkept.parent hfree (by decide) hparent hc, hvalue hconstant]

/-- Whatever was run in a session, as long as its frame does not bind the names of null and of the
truth values: the text that is printed for data is a program with this data as its value.  It prints
nothing and leaves all frames as they are.  Of each number in the data it is assumed that it is
written as a run of digits which is read as the same number. -/
theorem eval_display
    (hs : Relation.ReflTransGen Store.Step (new limit clock).state.store s.state.store)
    (hshadow : ∀ x ∈ ["true", "false", "null"], ¬s.state.store.Binds top x)
    {v : Value} (hv : v.IsData) (hnumbers : ∀ x ∈ v.numbers, Number.ReadsBack x) (depth : Nat) :
    (s.eval depth v.display).1 = .ok v ∧ v.equal v = true ∧
      (s.eval depth v.display).2.state.store = s.state.store ∧
      (s.eval depth v.display).2.state.sink = s.state.sink := by
  have hnames : s.state.store.NamesValues top := by
    refine ⟨?_, fun b => ?_⟩
    · exact lookup_builtin (b := ⟨"null", .null, true⟩) hs rfl (hshadow "null" (by decide))
    · cases b with
      | false =>
        exact lookup_builtin (b := ⟨"false", .bool false, true⟩) hs rfl
          (hshadow "false" (by decide))
      | true =>
        exact lookup_builtin (b := ⟨"true", .bool true, true⟩) hs rfl
          (hshadow "true" (by decide))
  obtain ⟨hvalue, -, hstate⟩ := eval_of_ofSource (hv.ofSource_display hnumbers) s depth
  have hrun : (⟨[.expr v.literal]⟩ : Program).run s.host depth top s.state = .ok v s.state := by
    show Stmt.runAll _ top .null [.expr v.literal] s.state = _
    rw [Stmt.runAll, Stmt.run, Run.bind_of_ok (Run.eval_literal hv hnames)]
    rfl
  rw [Run.outcome, hrun] at hvalue
  rw [Run.final, hrun] at hstate
  exact ⟨hvalue, hv.equal_self, hstate.store, hstate.sink⟩

/-- An object in an object, in a session in which a variable was declared. -/
theorem eval_display_nested :
    let s := ((new none (.still ⟨0⟩)).run 1 ⟨[.declare false "x" none]⟩).2
    let v : Value :=
      .object [("a", .object [("a", .number 42), ("b", .null)]), ("b", .bool true)]
    v.display = "\x7b a: \x7b a: 42, b: null \x7d, b: true \x7d" ∧
      ∀ depth, (s.eval depth v.display).1 = .ok v ∧ v.equal v = true ∧
        (s.eval depth v.display).2.state.store = s.state.store ∧
        (s.eval depth v.display).2.state.sink = s.state.sink := by
  intro s v
  refine ⟨by decide, fun depth => ?_⟩
  have hname : ∀ x ∈ ["a", "b"], Text.IsName x := by
    intro x hx
    simp only [List.mem_cons, List.not_mem_nil, or_false] at hx
    obtain rfl | rfl := hx
    · exact ⟨⟨'a', [], rfl, by decide, nofun⟩, by decide⟩
    · exact ⟨⟨'b', [], rfl, by decide, nofun⟩, by decide⟩
  have hobject {x y : Value} (hx : x.IsData) (hy : y.IsData) :
      (Value.object [("a", x), ("b", y)]).IsData := by
    have hsorted : "a" < "b" := by decide
    refine .object (List.pairwise_pair.2 hsorted) ?_ ?_
    · simpa using hname
    · simpa using ⟨hx, hy⟩
  have hv : v.IsData := hobject (hobject (.number (by decide)) .null) (.bool true)
  have hshadow : ∀ x ∈ ["true", "false", "null"], ¬s.state.store.Binds top x := by
    rintro x hx ⟨frame, hframe, hbinds⟩
    obtain rfl := Option.some.inj hframe
    simp only [List.mem_cons, List.not_mem_nil, or_false] at hx
    obtain rfl | rfl | rfl := hx
    all_goals exact absurd hbinds (by decide)
  have hnumbers : ∀ x ∈ v.numbers, Number.ReadsBack x := by
    intro x hx
    obtain rfl : x = 42 := by simpa [v, Value.numbers, Fields.numbers] using hx
    have hrender : Number.Layout.plain.render 42 = "42" := by decide
    rw [Number.ReadsBack, hrender]
    exact ⟨⟨by decide, List.all_eq_true.1 (by decide)⟩, by decide⟩
  exact eval_display (steps_run _ 1 _) hshadow hv hnumbers depth

end Session

end ScopeScript
