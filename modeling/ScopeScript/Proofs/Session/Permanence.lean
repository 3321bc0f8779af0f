import Mathlib
import ScopeScript.Proofs.Run.Declaration
import ScopeScript.Proofs.Session.OneFrame

/-!
# What lasts through a session

Between two moments of a session anything may be run: operations of the host on any frame, and
expressions, statements and programs with any natives, which succeed or halt.  Whatever it is, the
store is a later one afterwards.  So constants stay what they are, and a program that declares a
name cannot succeed a second time.  Stores that are made in this way, as those of all sessions are,
mark no names but bound ones.
-/

namespace ScopeScript

namespace Store

/-- One step in the life of a store: an operation of the host or an evaluation, however it ends.
The sink, the events and the clock may be any. -/
inductive Step : Store → Store → Prop
  | newFrame (parent : Option FrameId) (s : State) :
      Step s.store ((Run.newFrame parent).final s).store
  | declare (f : FrameId) (x : String) (v : Value) (constant : Bool) (s : State) :
      Step s.store ((Run.declare f x v constant).final s).store
  | assign (f : FrameId) (x : String) (v : Value) (s : State) :
      Step s.store ((Run.assign f x v).final s).store
  | eval (host : Host) (depth : Nat) (f : FrameId) (e : Expr) (s : State) :
      Step s.store ((e.eval (Run.call host depth) f).final s).store
  | run (host : Host) (depth : Nat) (f : FrameId) (stmt : Stmt) (s : State) :
      Step s.store ((stmt.run (Run.call host depth) f).final s).store
  | program (host : Host) (depth : Nat) (f : FrameId) (p : Program) (s : State) :
      Step s.store ((p.run host depth f).final s).store

/-- A step does to the store what all operations guarantee. -/
theorem Step.related {R : Store → Store → Prop}
    (hR : Run.IsGuarantee fun s t => R s.store t.store) {s t : Store} (h : Step s t) : R s t := by
  have hcalls (host : Host) (depth : Nat) := Run.Composed.calls host depth
  cases h with
  | newFrame parent s => exact hR.newFrame parent s
  | declare f x v constant s => exact hR.declare f x v constant s
  | assign f x v s => exact hR.assign f x v s
  | eval host depth f e s =>
    have he : Run.Composed host (fun _ => False) (e.eval (Run.call host depth) f) :=
      .eval (hcalls host depth) f e
    exact hR.composed he s
  | run host depth f stmt s =>
    have hstmt : Run.Composed host (f = ·) (stmt.run (Run.call host depth) f) :=
      .run (hcalls host depth) rfl stmt
    exact hR.composed hstmt s
  | program host depth f p s =>
    have hp : Run.Composed host (f = ·) (p.run host depth f) :=
      .program host depth rfl p
    exact hR.composed hp s

/-- After any steps the store is a later one. -/
theorem keeps_of_steps {s t : Store} (h : Relation.ReflTransGen Step s t) : s.Keeps t := by
  induction h with
  | refl => exact .refl s
  | tail _ step ih => exact ih.trans (step.related Run.isGuarantee_keeps)

/-- Steps mark no name that they do not bind. -/
theorem MarksBound.of_steps {s t : Store} (hs : s.MarksBound)
    (h : Relation.ReflTransGen Step s t) : t.MarksBound := by
  induction h with
  | refl => exact hs
  | tail _ step ih =>
    exact step.related (R := fun s t => s.MarksBound → t.MarksBound) Run.isGuarantee_marksBound ih

/-- Steps lead from nothing to the global frame. -/
theorem steps_builtin : Relation.ReflTransGen Step .empty Builtin.store := by
  let state (s : Store) : State := .ofStore s none (.still ⟨0⟩)
  have hdeclare {frame : Frame} (x : String) (v : Value) (hx : frame.find? x = none)
      (h : Relation.ReflTransGen Step .empty ⟨#[frame], 0⟩) :
      Relation.ReflTransGen Step .empty ⟨#[frame.add ⟨x, v, true⟩], 0⟩ := by
    have hstep := Step.declare 0 x v true (state ⟨#[frame], 0⟩)
    have hframe : (state ⟨#[frame], 0⟩).store.frames[0]? = some frame := rfl
    rw [Run.declare_eq_rebind, Run.final_rebind, declare_eq hframe, hx] at hstep
    exact h.tail hstep
  have hstart : Relation.ReflTransGen Step .empty ⟨#[.empty none], 0⟩ :=
    .single (.newFrame none (state .empty))
  have htrue := hdeclare "true" (.bool true) rfl hstart
  have hfalse := hdeclare "false" (.bool false) rfl htrue
  have hnull := hdeclare "null" .null rfl hfalse
  have hprint := hdeclare "print" (.native ⟨0, "print"⟩) rfl hnull
  have hclock := hdeclare "clock" (.native ⟨1, "clock"⟩) rfl hprint
  exact hdeclare "sqrt" (.native ⟨2, "sqrt"⟩) rfl hclock

end Store

namespace Session

theorem outcome_run (s : Session) (depth : Nat) (p : Program) :
    (s.run depth p).1 = (p.run s.host depth top).outcome s.state := by
  rw [run, perform_eq]

theorem state_run (s : Session) (depth : Nat) (p : Program) :
    (s.run depth p).2.state = (p.run s.host depth top).final s.state := by
  rw [run, perform_eq]

theorem outcome_load (s : Session) (source : String) :
    (s.load source).1 = Program.ofSource source := by
  unfold load State.load Program.ofSource
  cases Token.ofSource source with
  | error e => rfl
  | ok tokens =>
    show _ = Program.ofTokens tokens
    simp only
    cases Program.ofTokens tokens with
    | error e => rfl
    | ok p => rfl

theorem store_load (s : Session) (source : String) :
    (s.load source).2.state.store = s.state.store := by
  unfold load State.load
  cases Token.ofSource source with
  | error e => rfl
  | ok tokens =>
    simp only
    cases Program.ofTokens tokens with
    | error e => rfl
    | ok p => rfl

theorem steps_run (s : Session) (depth : Nat) (p : Program) :
    Relation.ReflTransGen Store.Step s.state.store (s.run depth p).2.state.store := by
  rw [state_run]
  exact .single (.program s.host depth top p s.state)

/-- Evaluating a source text is reading it and, if it is a program, running that. -/
theorem eval_cases (s : Session) (depth : Nat) (source : String) :
    (∃ e, Program.ofSource source = .error e ∧ (s.eval depth source).1 = .error (.rejected e) ∧
      (s.eval depth source).2 = (s.load source).2) ∨
    ∃ p, Program.ofSource source = .ok p ∧
      (s.eval depth source).1 = ((s.load source).2.run depth p).1.mapError .halted ∧
      (s.eval depth source).2 = ((s.load source).2.run depth p).2 := by
  have hload := s.outcome_load source
  rw [← hload]
  unfold eval
  generalize s.load source = r
  obtain ⟨r, t⟩ := r
  cases r with
  | error e => exact .inl ⟨e, rfl, rfl, rfl⟩
  | ok p =>
    refine .inr ⟨p, rfl, ?_⟩
    simp only
    generalize t.run depth p = r
    obtain ⟨r, u⟩ := r
    cases r with
    | error h => exact ⟨rfl, rfl⟩
    | ok v => exact ⟨rfl, rfl⟩

/-- Reading a source text and running it is such a step, or none. -/
theorem steps_eval (s : Session) (depth : Nat) (source : String) :
    Relation.ReflTransGen Store.Step s.state.store (s.eval depth source).2.state.store := by
  rw [← s.store_load source]
  obtain ⟨-, -, -, heval⟩ | ⟨p, -, -, heval⟩ := s.eval_cases depth source
  · rw [heval]
  · rw [heval]
    exact steps_run _ depth p

/-- The store of a new session is made by such steps. -/
theorem steps_new (limit : Option Nat) (clock : Clock) :
    Relation.ReflTransGen Store.Step .empty (new limit clock).state.store :=
  Store.steps_builtin.tail (.newFrame (some globals) (.ofStore Builtin.store limit clock))

/-- Whatever is run, in whatever order and however it ends, frames keep their parents and the names
that they bind; constants stay constants and keep their values, and variables stay variables.  A
name that a frame marks as a constant is bound in it, in every store that is made from nothing, as
those of sessions are, and after any steps from a store in which it is so.  A program that declares
a name at the top succeeds at most once in a session, whatever is run in between. -/
theorem bindings_last :
    (∀ s t : Store, Relation.ReflTransGen Store.Step s t → s.Keeps t) ∧
    (∀ s t : Store, Relation.ReflTransGen Store.Step s t → s.MarksBound → t.MarksBound) ∧
    (∀ t : Store, Relation.ReflTransGen Store.Step .empty t →
      ∀ (f : FrameId) (frame : Frame), t.frames[f]? = some frame →
        ∀ x, frame.isConstant x = true → frame.binds x = true) ∧
    (∀ (limit : Option Nat) (clock : Clock),
      Relation.ReflTransGen Store.Step .empty (new limit clock).state.store) ∧
    ∀ (s s' : Session) (depth depth' : Nat) (p : Program), declaredNames p.body ≠ [] →
      Relation.ReflTransGen Store.Step (s.run depth p).2.state.store s'.state.store →
      ¬((∃ v, (s.run depth p).1 = .ok v) ∧ ∃ w, (s'.run depth' p).1 = .ok w) := by
  refine ⟨fun s t => Store.keeps_of_steps, fun s t hsteps hs => hs.of_steps hsteps,
    fun t hsteps => Store.marksBound_empty.of_steps hsteps, steps_new, ?_⟩
  rintro s s' depth depth' p hnames hsteps ⟨⟨v, hv⟩, w, hw⟩
  obtain ⟨x, hx⟩ := List.exists_mem_of_ne_nil _ hnames
  rw [outcome_run] at hv hw
  rw [state_run] at hsteps
  obtain ⟨-, hbound⟩ := Run.binds_of_runAll (Run.Composed.calls s.host depth) hv hx
  obtain ⟨hfree, -⟩ := Run.binds_of_runAll (Run.Composed.calls s'.host depth') hw hx
  exact hfree ((Store.keeps_of_steps hsteps).binds hbound)

/-- A program that declares a variable fails when it is run again, although a text was run in
between that assigned to the variable. -/
theorem bindings_last_reassigned :
    let s := new none (.still ⟨0⟩)
    let p : Program := ⟨[.declare false "x" none]⟩
    let t := (s.run 1 p).2.eval 1 "x = true"
    (∃ v, (s.run 1 p).1 = .ok v) ∧ t.1 = .ok (.bool true) ∧ ∀ w, (t.2.run 1 p).1 ≠ .ok w := by
  intro s p t
  have hfirst : ∃ v, (s.run 1 p).1 = .ok v := ⟨.null, rfl⟩
  have hbetween : ((s.run 1 p).2.eval 1 "x = true").1 = .ok (.bool true) := by cbv
  refine ⟨hfirst, hbetween, fun w hw => ?_⟩
  exact bindings_last.2.2.2.2 s t.2 1 1 p (by decide) (steps_eval _ 1 _) ⟨hfirst, w, hw⟩

end Session

end ScopeScript
