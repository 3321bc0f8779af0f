import ScopeScript.Proofs.Run.Composition
import ScopeScript.Proofs.Run.Simulation
import ScopeScript.Proofs.Store.Permanence

/-!
# Declarations in runs

Every run leads to a later store, in which the marks of constants are on bound names if they were
so before.  A statement that declares a name does so at its end, after work in
which it declares nothing in its own frame.  Hence statements succeed only if the names that they
declare were not bound before, and bind them.
-/

namespace ScopeScript.Run

/-! ## Later stores -/

/-- What the operations on stores guarantee and what passes to sequences of them, all operations on
states guarantee of the stores. -/
theorem isGuarantee_of_store {R : Store → Store → Prop} (refl : ∀ s, R s s)
    (trans : ∀ {s t u}, R s t → R t u → R s u)
    (assign : ∀ {s t f x v}, Store.assign s f x v = .ok t → R s t)
    (declare : ∀ {s t f x v constant}, Store.declare s f x v constant = .ok t → R s t)
    (newFrame : ∀ s parent, R s (Store.newFrame s parent).2)
    (newClosure : ∀ s, R s (Store.newClosure s).2) :
    IsGuarantee fun s t => R s.store t.store := by
  have hrebind {op : Store → Except Halt Store} (v : Value) (hop : ∀ s t, op s = .ok t → R s t) :
      Guarantees (fun s t => R s.store t.store) (rebind op v) := by
    intro s
    rw [final_rebind]
    cases h : op s.store with
    | ok t => exact hop _ _ h
    | error e => exact refl _
  exact {
    refl := fun s => refl s.store
    trans := trans
    assign := fun _ _ v => hrebind v fun _ _ => assign
    declare := fun _ _ v _ => hrebind v fun _ _ => declare
    newFrame := fun parent s => newFrame s.store parent
    newClosure := fun s => newClosure s.store
    emit := fun _ s => refl s.store
    write := fun text s => by
      rw [final_write]
      exact refl s.store
    readClock := fun s => refl s.store }

/-- Whatever is run, the store is a later one afterwards. -/
theorem isGuarantee_keeps : IsGuarantee fun s t => s.store.Keeps t.store :=
  isGuarantee_of_store .refl .trans Store.keeps_assign Store.keeps_declare Store.keeps_newFrame
    fun s => .refl s

/-- Whatever is run, only bound names are marked as constants if it was so before. -/
theorem isGuarantee_marksBound :
    IsGuarantee fun s t => s.store.MarksBound → t.store.MarksBound :=
  isGuarantee_of_store (R := fun s t => s.MarksBound → t.MarksBound) (fun _ => id)
    (fun hst htu hs => htu (hst hs)) (fun h hs => hs.assign h) (fun h hs => hs.declare h)
    (fun _ parent hs => hs.newFrame parent) fun _ => id

theorem Composed.keeps {host : Host} {own : FrameId → Prop} {α : Type} {m : Run α}
    (hm : Composed host own m) (s : State) : s.store.Keeps (m.final s).store :=
  isGuarantee_keeps.composed hm s

theorem Composed.binds {host : Host} {own : FrameId → Prop} {α : Type} {m : Run α}
    (hm : Composed host own m) {s : State} {f : FrameId} {x : String} (hx : s.store.Binds f x) :
    (m.final s).store.Binds f x :=
  (hm.keeps s).binds hx

/-! ## Statements that declare a name -/

theorem outcome_ok_of_bind {α β : Type} {m : Run α} {f : α → Run β} {s : State} {b : β}
    (h : (m >>= f).outcome s = .ok b) :
    ∃ a, m.outcome s = .ok a ∧ (f a).outcome (m.final s) = .ok b := by
  cases hm : m.outcome s with
  | ok a =>
    rw [outcome_bind_of_ok hm] at h
    exact ⟨a, rfl, h⟩
  | error e =>
    rw [outcome_bind_of_error hm] at h
    cases h

theorem store_of_outcome_declare {f : FrameId} {x : String} {v w : Value} {constant : Bool}
    {s : State} (h : (declare f x v constant).outcome s = .ok w) :
    s.store.declare f x v constant = .ok ((declare f x v constant).final s).store := by
  rw [declare_eq_rebind] at h ⊢
  rw [outcome_rebind] at h
  rw [final_rebind]
  cases hd : s.store.declare f x v constant with
  | ok t => rfl
  | error e =>
    simp only [hd] at h
    cases h

/-- A statement that declares a name computes a value, without declaring anything, and declares the
name with it. -/
theorem exists_prepare {host : Host} {call : Caller} (hcall : Composed.Calls host call)
    {stmt : Stmt} {x : String} (hx : stmt.declaredName? = some x) (f : FrameId) :
    ∃ (prepare : Run Value) (constant : Bool), (∀ own, Composed host own prepare) ∧
      stmt.run call f = prepare >>= fun v => declare f x v constant := by
  cases stmt with
  | declare constant name init? =>
    obtain rfl := Option.some.inj hx
    cases init? with
    | some init =>
      refine ⟨init.eval call f >>= fun v => emit (.declaringVariable name constant) >>= fun _ =>
        pure v, constant, fun own => ?_, ?_⟩
      · exact .bind (.eval hcall f init) fun v => .bind (.emit _) fun _ => .pure v
      · simp only [bind_assoc, pure_bind]
        rfl
    | none =>
      refine ⟨emit (.declaringVariable name constant) >>= fun _ => pure .null, constant,
        fun own => .bind (.emit _) fun _ => .pure _, rfl⟩
  | define name params body =>
    obtain rfl := Option.some.inj hx
    refine ⟨newClosure >>= fun identity => emit (.declaringFunction name params.length) >>= fun _ =>
      pure (.function ⟨identity, name, params, body, f⟩), true, fun own => ?_, ?_⟩
    · exact .bind .newClosure fun _ => .bind (.emit _) fun _ => .pure _
    · simp only [bind_assoc, pure_bind]
      rfl
  | expr e => cases hx

variable {host : Host} {call : Caller} {f : FrameId} {s : State} {v : Value} {x : String}

/-- A statement that declares a name succeeds only if the name was not bound, and binds it. -/
theorem binds_of_run (hcall : Composed.Calls host call) {stmt : Stmt}
    (hx : stmt.declaredName? = some x) (h : (stmt.run call f).outcome s = .ok v) :
    ¬s.store.Binds f x ∧ ((stmt.run call f).final s).store.Binds f x := by
  obtain ⟨prepare, constant, hprepare, heq⟩ := exists_prepare hcall hx f
  rw [heq] at h ⊢
  obtain ⟨w, hw, hdeclare⟩ := outcome_ok_of_bind h
  rw [final_bind_of_ok hw]
  have hstore := store_of_outcome_declare hdeclare
  refine ⟨fun hbound => ?_, ?_⟩
  · exact Store.not_binds_of_declare hstore ((hprepare fun _ => False).binds hbound)
  · exact (Store.binds_iff_of_declare hstore f x).2 (.inr ⟨rfl, rfl⟩)

/-- If statements succeed, the names that they declare were not bound before, and are bound
afterwards. -/
theorem binds_of_runAll (hcall : Composed.Calls host call) {stmts : List Stmt} {last : Value}
    (h : (Stmt.runAll call f last stmts).outcome s = .ok v) (hx : x ∈ declaredNames stmts) :
    ¬s.store.Binds f x ∧ ((Stmt.runAll call f last stmts).final s).store.Binds f x := by
  induction stmts generalizing s last with
  | nil => cases hx
  | cons stmt rest ih =>
    rw [Stmt.runAll] at h ⊢
    obtain ⟨w, hw, hrest⟩ := outcome_ok_of_bind h
    rw [final_bind_of_ok hw]
    have hstmt : Composed host (f = ·) (stmt.run call f) := .run hcall rfl stmt
    have htail : Composed host (f = ·) (Stmt.runAll call f w rest) :=
      .runAll hcall rfl rest w
    obtain ⟨stmt', hmem, hname⟩ := List.mem_filterMap.1 hx
    obtain rfl | hmem := List.mem_cons.1 hmem
    · obtain ⟨hbefore, hafter⟩ := binds_of_run hcall hname hw
      exact ⟨hbefore, htail.binds hafter⟩
    · obtain ⟨hbefore, hafter⟩ := ih hrest (List.mem_filterMap.2 ⟨stmt', hmem, hname⟩)
      exact ⟨fun hbound => hbefore (hstmt.binds hbound), hafter⟩

end ScopeScript.Run
