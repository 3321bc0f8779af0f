import ScopeScript.Proofs.Run.Declaration

/-!
# The names that a run declares

With builtin natives a computation declares names only in the frames that it owns and in those that
it makes.  An expression owns none, so the frames that there are keep their names, whatever
functions it calls.  A program declares, in its frame, the names of the statements that succeed.
-/

namespace ScopeScript.Run

/-! ## Frames that are not owned -/

theorem binds_of_rebind {op : Store → Except Halt Store} {w : Value} {s : State} {g : FrameId}
    {y : String} (hop : ∀ t, op s.store = .ok t → t.Binds g y → s.store.Binds g y)
    (hy : ((rebind op w).final s).store.Binds g y) : s.store.Binds g y := by
  rw [final_rebind] at hy
  cases h : op s.store with
  | ok t =>
    rw [h] at hy
    exact hop t h hy
  | error e =>
    rw [h] at hy
    exact hy

/-- Builtin natives leave the store as it is. -/
theorem store_builtin (n : Native) (args : List Value) (frame : FrameId) (s : State) :
    (((Builtin.host.action n args).perform frame).final s).store = s.store := by
  obtain ⟨sink, clock, h⟩ := exists_final_builtin n args frame s
  rw [h]

/-- A computation that owns none of the frames below `n` binds no name in them. -/
theorem Composed.binds_below {own : FrameId → Prop} {α : Type} {m : Run α}
    (hm : Composed Builtin.host own m) {n : Nat} (hown : ∀ f, own f → n ≤ f) {s : State}
    (hn : n ≤ s.store.frames.size) {g : FrameId} (hg : g < n) {y : String}
    (hy : (m.final s).store.Binds g y) : s.store.Binds g y := by
  induction hm generalizing s with
  | pure | throw | newClosure | emit => exact hy
  | @bind own _ _ m f hm _ ihm ihf =>
    cases h : m.outcome s with
    | ok a =>
      rw [final_bind_of_ok h] at hy
      exact ihm hown hn (ihf a hown (Nat.le_trans hn (hm.keeps s).size_le) hy)
    | error e =>
      rw [final_bind_of_error h] at hy
      exact ihm hown hn hy
  | lookup frame x =>
    rw [lookup_eq_query, final_query] at hy
    exact hy
  | assign frame x v =>
    rw [assign_eq_rebind] at hy
    exact binds_of_rebind (fun t ht => (Store.binds_iff_of_assign ht g y).1) hy
  | declare hframe x v constant =>
    rw [declare_eq_rebind] at hy
    refine binds_of_rebind (fun t ht hy => ?_) hy
    obtain hy | ⟨rfl, -⟩ := (Store.binds_iff_of_declare ht g y).1 hy
    · exact hy
    · exact absurd (hown _ hframe) (Nat.not_le.2 hg)
  | @within own _ parent _ _ ih =>
    rw [final_bind_of_ok (outcome_newFrame s parent), final_newFrame] at hy
    -- The new frame has a number above those of all others.
    have hown' : ∀ f, own f ∨ f = s.store.frames.size → n ≤ f := by
      rintro f (hf | rfl)
      · exact hown f hf
      · exact hn
    have hsize := (Store.keeps_newFrame s.store parent).size_le
    exact (Store.binds_newFrame_iff parent).1 (ih _ hown' (Nat.le_trans hn hsize) hy)
  | native n args frame =>
    rw [store_builtin] at hy
    exact hy

/-- A computation that owns no frame leaves all frames the names that they have. -/
theorem Composed.sameNames {α : Type} {m : Run α}
    (hm : Composed Builtin.host (fun _ => False) m) (s : State) :
    s.store.SameNames (m.final s).store :=
  (hm.keeps s).sameNames fun _ hf _ => hm.binds_below (fun _ => False.elim) (Nat.le_refl _) hf

/-! ## Statements -/

section Statements

variable {call : Caller} {e g : FrameId} {s : State} {v : Value} {h : Halt} {y : String}

theorem composed_of_declaredName?_eq_none {host : Host} (hcall : Composed.Calls host call)
    {own : FrameId → Prop} {stmt : Stmt} (hx : stmt.declaredName? = none) :
    Composed host own (stmt.run call e) := by
  cases stmt with
  | expr body => exact .eval hcall e body
  | declare | define => cases hx

theorem final_declare_of_error {x : String} {constant : Bool}
    (hh : (declare e x v constant).outcome s = .error h) :
    (declare e x v constant).final s = s := by
  rw [declare_eq_rebind, outcome_rebind] at hh
  rw [declare_eq_rebind, final_rebind]
  cases hd : s.store.declare e x v constant with
  | ok t =>
    simp only [hd] at hh
    cases hh
  | error h => rfl

/-- A statement that succeeds binds the name that it declares, in its frame, and no other. -/
theorem binds_iff_of_run (hcall : Composed.Calls Builtin.host call) {stmt : Stmt}
    (hv : (stmt.run call e).outcome s = .ok v) (hg : g < s.store.frames.size) :
    ((stmt.run call e).final s).store.Binds g y ↔
      s.store.Binds g y ∨ g = e ∧ stmt.declaredName? = some y := by
  cases hx : stmt.declaredName? with
  | none =>
    have hnames := (composed_of_declaredName?_eq_none hcall hx (e := e)).sameNames s
    simp [hnames.binds_iff g hg]
  | some x =>
    obtain ⟨prepare, constant, hprepare, heq⟩ := exists_prepare hcall hx e
    rw [heq] at hv ⊢
    obtain ⟨w, hw, hdeclare⟩ := outcome_ok_of_bind hv
    rw [final_bind_of_ok hw, Store.binds_iff_of_declare (store_of_outcome_declare hdeclare),
      ((hprepare _).sameNames s).binds_iff g hg, Option.some_inj, eq_comm (a := x)]

/-- A statement that halts leaves all frames the names that they have. -/
theorem sameNames_of_run (hcall : Composed.Calls Builtin.host call) {stmt : Stmt}
    (hh : (stmt.run call e).outcome s = .error h) :
    s.store.SameNames ((stmt.run call e).final s).store := by
  cases hx : stmt.declaredName? with
  | none => exact (composed_of_declaredName?_eq_none hcall hx).sameNames s
  | some x =>
    obtain ⟨prepare, constant, hprepare, heq⟩ := exists_prepare hcall hx e
    rw [heq] at hh ⊢
    cases hw : prepare.outcome s with
    | ok w =>
      rw [outcome_bind_of_ok hw] at hh
      rw [final_bind_of_ok hw, final_declare_of_error hh]
      exact (hprepare _).sameNames s
    | error h' =>
      rw [final_bind_of_error hw]
      exact (hprepare _).sameNames s

/-! ## Statements one after the other -/

/-- Statements that succeed bind the names that they declare, in their frame, and no others. -/
theorem binds_iff_of_runAll (hcall : Composed.Calls Builtin.host call) {stmts : List Stmt}
    {last : Value} (hv : (Stmt.runAll call e last stmts).outcome s = .ok v)
    (hg : g < s.store.frames.size) :
    ((Stmt.runAll call e last stmts).final s).store.Binds g y ↔
      s.store.Binds g y ∨ g = e ∧ y ∈ declaredNames stmts := by
  induction stmts generalizing s last with
  | nil => simp [Stmt.runAll, declaredNames]
  | cons stmt rest ih =>
    rw [Stmt.runAll] at hv ⊢
    obtain ⟨w, hw, hrest⟩ := outcome_ok_of_bind hv
    have hstmt : Composed Builtin.host (e = ·) (stmt.run call e) := .run hcall rfl stmt
    have hsize := (hstmt.keeps s).size_le
    rw [final_bind_of_ok hw, ih hrest (Nat.lt_of_lt_of_le hg hsize), binds_iff_of_run hcall hw hg,
      or_assoc, ← and_or_left]
    have hmem : y ∈ declaredNames (stmt :: rest) ↔
        stmt.declaredName? = some y ∨ y ∈ declaredNames rest := by
      simp [declaredNames, List.mem_filterMap]
    rw [hmem]

theorem gains_of_runAll (hcall : Composed.Calls Builtin.host call) {stmts : List Stmt}
    {last : Value} (hv : (Stmt.runAll call e last stmts).outcome s = .ok v) :
    s.store.Gains e (declaredNames stmts) ((Stmt.runAll call e last stmts).final s).store where
  keeps :=
    have hstmts : Composed Builtin.host (e = ·) (Stmt.runAll call e last stmts) :=
      .runAll hcall rfl stmts last
    hstmts.keeps s
  not_binds _ hx := (binds_of_runAll hcall hv hx).1
  binds_iff _ hg _ := binds_iff_of_runAll hcall hv hg

/-- If statements halt, one of them does, and those before it succeed. -/
theorem exists_of_runAll_error {stmts : List Stmt} {last : Value}
    (hh : (Stmt.runAll call e last stmts).outcome s = .error h) :
    ∃ ran stmt rest v, stmts = ran ++ stmt :: rest ∧
      (Stmt.runAll call e last ran).outcome s = .ok v ∧
      (stmt.run call e).outcome ((Stmt.runAll call e last ran).final s) = .error h ∧
      (Stmt.runAll call e last stmts).final s =
        (stmt.run call e).final ((Stmt.runAll call e last ran).final s) := by
  induction stmts generalizing s last with
  | nil => cases hh
  | cons stmt rest ih =>
    rw [Stmt.runAll] at hh ⊢
    cases hw : (stmt.run call e).outcome s with
    | ok w =>
      rw [outcome_bind_of_ok hw] at hh
      obtain ⟨ran, stmt', rest', v, rfl, hran, hfail, hfinal⟩ := ih hh
      refine ⟨stmt :: ran, stmt', rest', v, rfl, ?_⟩
      rw [Stmt.runAll, outcome_bind_of_ok hw, final_bind_of_ok hw, final_bind_of_ok hw]
      exact ⟨hran, hfail, hfinal⟩
    | error h' =>
      rw [outcome_bind_of_error hw] at hh
      obtain rfl := Except.error.inj hh
      exact ⟨[], stmt, rest, last, rfl, rfl, hw, final_bind_of_error hw⟩

end Statements

/-! ## Programs -/

/-- With builtin natives, the evaluation of an expression, however it ends, leaves the frames that
there are their names and their constants, and can only give other values to variables.  A program
that succeeds binds, in its frame, the names that its statements declare; one that halts binds those
that are declared by the statements before the one that halts. -/
theorem names_of_run (depth : Nat) (s : State) :
    (∀ (f : FrameId) (e : Expr),
      s.store.SameNames ((e.eval (call Builtin.host depth) f).final s).store) ∧
    ∀ (f : FrameId) (p : Program), f < s.store.frames.size →
      (∀ v, (p.run Builtin.host depth f).outcome s = .ok v →
        s.store.Gains f (declaredNames p.body) ((p.run Builtin.host depth f).final s).store) ∧
      ∀ h, (p.run Builtin.host depth f).outcome s = .error h →
        ∃ ran stmt rest v, p.body = ran ++ stmt :: rest ∧
          (Program.run Builtin.host depth f ⟨ran⟩).outcome s = .ok v ∧
          (stmt.run (call Builtin.host depth) f).outcome
            ((Program.run Builtin.host depth f ⟨ran⟩).final s) = .error h ∧
          s.store.Gains f (declaredNames ran) ((p.run Builtin.host depth f).final s).store := by
  have hcalls := Composed.calls Builtin.host depth
  refine ⟨fun f e => (Composed.eval hcalls f e).sameNames s, fun f p hf => ⟨fun v hv => ?_, ?_⟩⟩
  · exact gains_of_runAll hcalls hv
  · intro h hh
    obtain ⟨ran, stmt, rest, v, hbody, hran, hfail, hfinal⟩ := exists_of_runAll_error hh
    refine ⟨ran, stmt, rest, v, hbody, hran, hfail, ?_⟩
    rw [Program.run, hfinal]
    exact (gains_of_runAll hcalls hran).trans_sameNames (sameNames_of_run hcalls hfail)

/-- A function declares its parameter and a variable in a frame of its own, so that a program that
calls it binds nothing but what it declares itself. -/
theorem names_of_run_function :
    let s := State.ofStore (Builtin.store.newFrame (some 0)).2 none (.still ⟨0⟩)
    let p : Program := ⟨[.declare false "a" none, .define "f" ["b"] [.declare false "c" none],
      .expr (.call (.name "f") [.name "a"])]⟩
    1 < s.store.frames.size ∧ (p.run Builtin.host 2 1).outcome s = .ok .null ∧
      ∀ x, ((p.run Builtin.host 2 1).final s).store.Binds 1 x ↔ x ∈ ["a", "f"] := by
  intro s p
  have hframe : 1 < s.store.frames.size := by decide
  have hv : (p.run Builtin.host 2 1).outcome s = .ok .null := rfl
  refine ⟨hframe, hv, fun x => ?_⟩
  have hgains := ((names_of_run 2 s).2 1 p hframe).1 .null hv
  have hempty : ¬s.store.Binds 1 x := by
    rintro ⟨frame, hf, hx⟩
    obtain rfl := Option.some.inj hf
    cases hx
  rw [hgains.binds_iff 1 hframe x]
  simp [hempty, declaredNames, Stmt.declaredName?, p]

end ScopeScript.Run
