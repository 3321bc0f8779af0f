import ScopeScript.Proofs.Number.Rendering
import ScopeScript.Proofs.Run.Written
import ScopeScript.Proofs.Session.Moments

/-!
# Sessions of source texts

What is run in a session comes from source texts, and so do the bodies of all functions that occur
in it: some texts have just these statements (`Session.bodies_haveSource`).  The keys of all objects
are names, so that a number finds a property only where its text is a name
(`Session.keys_areNames`).
-/

namespace ScopeScript

/-- Some source text has the program as its tree. -/
def Program.HasSource (p : Program) : Prop := ∃ source, Program.ofSource source = .ok p

theorem Program.hasSource_iff {p : Program} : p.HasSource ↔ p.Writable :=
  ⟨fun ⟨_, h⟩ => written_iff_writable.1 (written_of_ofSource h),
    fun h => exists_source_of_written (written_iff_writable.2 h)⟩

theorem Builtin.written_store : Builtin.store.Written :=
  Store.holds_builtin (.of_nil rfl rfl) (fun _ => .of_nil rfl rfl) fun _ => .of_nil rfl rfl

/-- A computed property whose key is a number. -/
theorem Run.outcome_index {call : Caller} {f : FrameId} {object key : Expr} {fields : Fields}
    {x : Float} {s : State} (hobject : (object.eval call f).outcome s = .ok (.object fields))
    (hkey : (key.eval call f).outcome ((object.eval call f).final s) = .ok (.number x)) :
    ((Expr.index object key).eval call f).outcome s =
      .ok (fields.property (Number.Layout.plain.render x)) := by
  have hfields : (ofExcept (Value.object fields).fields).outcome ((object.eval call f).final s) =
      .ok fields := rfl
  rw [Expr.eval, outcome_bind_of_ok hobject, outcome_bind_of_ok hfields]
  exact outcome_bind_of_ok hkey

namespace Session

variable {s : Session}

/-- Evaluating a source text runs only a program that has a source. -/
theorem Reached.evalText {natives : (List Value → Action) → Prop}
    (h : s.Reached natives Program.HasSource) (depth : Nat) (source : String) :
    (s.eval depth source).2.Reached natives Program.HasSource := by
  refine h.eval depth fun p hp => ⟨source, ?_⟩
  rwa [outcome_load] at hp

theorem admits_written :
    Admits .written (· = Builtin.host) (fun _ => False) Program.HasSource where
  kept _ h := h ▸ Contract.isLawful_written.isKept_builtin
  builtin := rfl
  add _ _ _ _ hact := hact.elim
  store := Builtin.written_store.holds.newFrame _
  inGlobals := trivial
  inTop := trivial
  native _ := .of_nil rfl rfl
  program _ := Program.hasSource_iff.1

/-- Moments of such a session are those of written code, and what is to be seen there is written. -/
theorem Reached.written_at (h : s.Reached (fun _ => False) Program.HasSource) :
    (∀ m, s.Passes Program.HasSource m → m.Ready .written) ∧
      (∀ t v, s.Shows Program.HasSource t v → v.Written) ∧
      Contract.written.IsKept s.host := by
  obtain ⟨hstore, hhost⟩ := admits_written.reached h
  have hC : Contract.written.IsKept s.host := admits_written.kept _ hhost
  have hprograms (p : Program) (hp : p.HasSource) : p.Writable := Program.hasSource_iff.1 hp
  refine ⟨fun m hm => hm.ready hC hstore trivial hprograms, fun t v hv => ?_, hC⟩
  exact (hv.allowed hC hstore trivial hprograms fun hu hframe => hu _ _ hframe).2

/-- In a session of source texts all keys of objects are names, at every moment of a run.  So a
number finds a property only if its text is a name: what is no number finds that of `NaN`, positive
infinity that of `inf`, and all other numbers find none. -/
theorem keys_areNames (hs : s.Reached (fun _ => False) Program.HasSource) :
    (∀ t v, s.Shows Program.HasSource t v → ∀ key ∈ v.keys, Text.IsName key) ∧
      ∀ m, s.Passes Program.HasSource m →
        ∀ (object key : Expr) (fields : Fields) (x : Float), m.code = .expr (.index object key) →
          let evaluate := fun e : Expr => e.eval (Run.call s.host m.depth) m.frame
          (evaluate object).outcome m.state = .ok (.object fields) →
          (evaluate key).outcome ((evaluate object).final m.state) = .ok (.number x) →
            (m.run s.host).outcome m.state = .ok
              (if x.isNaN then fields.property "NaN"
              else if x.isInf && !Number.isNegative x then fields.property "inf"
              else .null) := by
  have hkeys (t : Store) (v : Value) (hv : s.Shows Program.HasSource t v) :
      ∀ key ∈ v.keys, Text.IsName key := (hs.written_at.2.1 t v hv).keys
  refine ⟨hkeys, ?_⟩
  rintro ⟨d, f, code, st⟩ hm object key fields x rfl evaluate hobject hkey
  have hinside : s.Passes Program.HasSource ⟨d, f, .expr object, st⟩ := by
    obtain ⟨depth, p, hp, hm⟩ := hm
    exact ⟨depth, p, hp, hm.tail .indexed⟩
  have hfields : ∀ k ∈ Fields.keys fields, Text.IsName k :=
    hkeys _ (.object fields) (.result hinside hobject)
  have hname := Number.Layout.isName_render_plain_iff x
  show (Expr.eval (Run.call s.host d) f (.index object key)).outcome st = _
  rw [Run.outcome_index hobject hkey]
  by_cases hnan : x.isNaN = true
  · rw [if_pos hnan, Number.Layout.render_plain_of_isNaN hnan]
  rw [if_neg hnan]
  by_cases hinf : x.isInf = true ∧ Number.isNegative x = false
  · have hrender := Number.Layout.render_plain_of_isInf (Bool.eq_false_iff.2 hnan) hinf.1
    rw [hinf.2, if_neg Bool.false_ne_true] at hrender
    rw [hrender, hinf.1, hinf.2]
    rfl
  · have hnone : Number.Layout.plain.render x ∉ Fields.keys fields := fun hk =>
      (hname.1 (hfields _ hk)).elim hnan hinf
    have hfinite : (x.isInf && !Number.isNegative x) ≠ true := by
      rwa [Ne, Bool.and_eq_true, Bool.not_eq_true']
    rw [if_neg hfinite, Fields.property_eq_null hnone]

/-- The square root of `-1` as a key, which is no number: it finds the property `NaN`. -/
theorem keys_areNames_sqrt :
    let p : Program := ⟨[.declare false "o" (some (.object [.keyed "NaN" (.name "true")]))]⟩
    let s := ((new none (.still ⟨0⟩)).run 1 p).2
    let key : Expr := .call (.name "sqrt") [.binary .sub (.number 0) (.number 1)]
    let m : Moment := ⟨1, top, .expr (.index (.name "o") key), s.state⟩
    s.Reached (fun _ => False) Program.HasSource ∧ s.Passes Program.HasSource m ∧
      (m.run s.host).outcome m.state = .ok (.bool true) ∧
      ∀ k ∈ (Value.object [("NaN", .bool true)]).keys, Text.IsName k := by
  intro p s key m
  have hp : p.HasSource := ⟨"let o = \x7b NaN: true \x7d;", by cbv⟩
  have hs : s.Reached (fun _ => False) Program.HasSource := (Reached.new none (.still ⟨0⟩)).run 1 hp
  have hkey : key.Writable := by
    refine .call (.name (by decide)) (List.forall_mem_singleton.2 (.binary ?_ ?_))
    · have hdigits : Number.IsDigitRun "0" := ⟨by decide, List.all_eq_true.1 (by decide)⟩
      exact .number hdigits (by decide)
    · have hdigits : Number.IsDigitRun "1" := ⟨by decide, List.all_eq_true.1 (by decide)⟩
      exact .number hdigits (by decide)
  have hindex : Program.HasSource ⟨[.expr (.index (.name "o") key)]⟩ :=
    Program.hasSource_iff.2 (List.forall_mem_singleton.2 (.expr (.index (.name (by decide)) hkey)))
  have hm : s.Passes Program.HasSource m := ⟨1, _, hindex, .head .first (.single .expr)⟩
  have howner : s.Passes Program.HasSource ⟨1, top, .expr (.name "o"), s.state⟩ :=
    ⟨1, _, hindex, .head .first (.head .expr (.single .indexed))⟩
  obtain ⟨hkeys, hindexed⟩ := keys_areNames hs
  refine ⟨hs, hm, ?_, hkeys s.state.store _ (.result howner rfl)⟩
  have hvalue := hindexed m hm (.name "o") key [("NaN", .bool true)] (0 - 1 : Float).sqrt rfl rfl
    rfl
  rw [if_pos (by decide)] at hvalue
  exact hvalue

/-- In a session of source texts each function has the body of some source text, at every moment of
a run.  So the property behind a point is a name, and no run fails since it is none; and neither
`null` nor a constant without a value is evaluated.  After a text was evaluated, whatever came of
it, the session is again one of source texts. -/
theorem bodies_haveSource (hs : s.Reached (fun _ => False) Program.HasSource) :
    (∀ t v, s.Shows Program.HasSource t v → ∀ c ∈ v.closures, Program.HasSource ⟨c.body⟩) ∧
      (∀ m, s.Passes Program.HasSource m →
        (∀ object property, m.code = .expr (.dot object property) →
          ∃ x, property = .name x ∧ Text.IsName x) ∧
        m.code ≠ .expr .null ∧ (∀ x, m.code ≠ .stmt (.declare true x none)) ∧
        (m.run s.host).outcome m.state ≠ .error (.fault .propertyNotAName)) ∧
      ∀ depth source, (s.eval depth source).1 ≠ .error (.halted (.fault .propertyNotAName)) ∧
        (s.eval depth source).2.Reached (fun _ => False) Program.HasSource := by
  obtain ⟨hmoments, hshown, hC⟩ := hs.written_at
  refine ⟨fun t v hv c hc => Program.hasSource_iff.2 ((hshown t v hv).bodies c hc),
    fun m hm => ?_, fun depth source => ⟨fun heval => ?_, hs.evalText depth source⟩⟩
  · have hready := hmoments m hm
    have hallowed := hready.allowed
    unfold Moment.Allowed at hallowed
    refine ⟨fun object property hcode => ?_, fun hcode => ?_, fun x hcode => ?_, fun hrun => ?_⟩
    · rw [hcode] at hallowed
      cases hallowed with
      | dot _ hx => exact ⟨_, rfl, hx⟩
    · rw [hcode] at hallowed
      cases hallowed
    · rw [hcode] at hallowed
      cases hallowed
    · exact (hready.ends hC).halt _ hrun rfl
  · obtain ⟨e, -, hrejected, -⟩ | ⟨p, hp, hrun, -⟩ := s.eval_cases depth source
    · rw [hrejected] at heval
      cases heval
    · -- The program is run in the session in which it was read.
      let t := (s.load source).2
      obtain ⟨hloaded, -, hC⟩ := (hs.load source).written_at
      have hready : Moment.Ready .written ⟨depth, top, .body p.body, t.state⟩ :=
        hloaded _ ⟨depth, p, ⟨source, hp⟩, .refl⟩
      rw [hrun, outcome_run] at heval
      cases hend : (p.run t.host depth top).outcome t.state with
      | ok v =>
        rw [hend] at heval
        cases heval
      | error h =>
        rw [hend] at heval
        exact (hready.ends hC).halt h hend (Failure.halted.inj (Except.error.inj heval))

/-- A function that reads a property of its argument, called with an argument that has none. -/
theorem bodies_haveSource_member :
    let member : Expr := .dot (.name "o") (.name "a")
    let p : Program := ⟨[.define "f" ["o"] [.expr member]]⟩
    let s := ((new none (.still ⟨0⟩)).run 2 p).2
    let c : Closure := ⟨0, "f", ["o"], [.expr member], top⟩
    s.Reached (fun _ => False) Program.HasSource ∧
      s.Shows Program.HasSource s.state.store (.function c) ∧ Program.HasSource ⟨c.body⟩ ∧
      (∃ m, s.Passes Program.HasSource m ∧ m.code = .expr member ∧
        (m.run s.host).outcome m.state ≠ .error (.fault .propertyNotAName)) ∧
      (s.eval 2 "f(true)").1 ≠ .error (.halted (.fault .propertyNotAName)) := by
  intro member p s c
  have hp : p.HasSource := ⟨"fn f(o) \x7b o.a \x7d", by cbv⟩
  have hcall : Program.HasSource ⟨[.expr (.call (.name "f") [.name "true"])]⟩ :=
    ⟨"f(true)", by cbv⟩
  have hs : s.Reached (fun _ => False) Program.HasSource := (Reached.new none (.still ⟨0⟩)).run 2 hp
  have hstart : s.Passes Program.HasSource ⟨2, top, .body p.body, s.state⟩ := ⟨2, p, hp, .refl⟩
  have hframe : s.state.store.frames[top]? =
      some ⟨some globals, [("f", .function c)], ["f"]⟩ := rfl
  have hshown : s.Shows Program.HasSource s.state.store (.function c) :=
    .bound hstart hframe List.mem_cons_self
  let st := (Run.openScope c [.bool true]).final s.state
  have hinside : s.Passes Program.HasSource ⟨1, 2, .expr member, st⟩ := by
    have hbody : Relation.ReflTransGen (Moment.Next s.host)
        ⟨2, top, .call (.function c) [.bool true], s.state⟩ ⟨1, 2, .expr member, st⟩ :=
      .head (.enter rfl rfl) (.head .first (.single .expr))
    exact ⟨2, _, hcall, .head .first (.head .expr (.head (.call rfl rfl) hbody))⟩
  have hmain := bodies_haveSource hs
  have hbody := hmain.1 _ _ hshown c (by simp [Value.closures])
  refine ⟨hs, hshown, hbody, ?_, (hmain.2.2 2 "f(true)").1⟩
  exact ⟨_, hinside, rfl, (hmain.2.1 _ hinside).2.2.2⟩

end Session

end ScopeScript
