import ScopeScript.Proofs.Run.Operations

/-!
# What evaluations are composed of

Expressions, statements and calls do all their work by a few operations on the state, one after the
other.  So what holds of the operations and passes to sequences holds of every evaluation
(`OfStatements.runAll`).  `Composed` says that a computation is put together from them, and in which
frames it declares names: in those that it owns, and in those that it makes itself.  An expression
owns no frame, and a statement the one that it is run in.
-/

namespace ScopeScript.Run

/-! ## Properties of evaluations -/

/-- What holds of the computations that expressions are evaluated by in a frame, and passes to
sequences of them. -/
structure OfExpressions (P : {α : Type} → Run α → Prop) (call : Caller) (frame : FrameId) :
    Prop where
  pure : ∀ {α : Type} (a : α), P (pure a : Run α)
  throw : ∀ {α : Type} (h : Halt), P (throw h : Run α)
  bind : ∀ {α β : Type} {m : Run α} {f : α → Run β}, P m → (∀ a, P (f a)) → P (m >>= f)
  lookup : ∀ x, P (lookup frame x)
  assign : ∀ x v, P (assign frame x v)
  call : ∀ v args, P (call v args frame)

/-- What holds also of declarations in the frame, each with the event that announces it. -/
structure OfStatements (P : {α : Type} → Run α → Prop) (call : Caller) (frame : FrameId) : Prop
    extends OfExpressions P call frame where
  declare : ∀ name v constant,
    P (emit (.declaringVariable name constant) >>= fun _ => declare frame name v constant)
  define : ∀ name params body,
    P (newClosure >>= fun identity => emit (.declaringFunction name params.length) >>= fun _ =>
      Run.declare frame name (.function ⟨identity, name, params, body, frame⟩) true)

section

variable {P : {α : Type} → Run α → Prop} {call : Caller} {frame : FrameId}

namespace OfExpressions

theorem fail (h : OfExpressions P call frame) {α : Type} (f : Fault) : P (fail f : Run α) :=
  h.throw _

theorem ofExcept (h : OfExpressions P call frame) {α : Type} (r : Except Fault α) :
    P (ofExcept r) := by
  cases r with
  | ok a => exact h.pure a
  | error f => exact h.fail f

mutual

theorem eval (h : OfExpressions P call frame) : (e : Expr) → P (e.eval call frame)
  | .null => h.pure _
  | .number _ => h.pure _
  | .name x => h.lookup x
  | .assign target value => by
    cases target with
    | name x => exact h.bind (eval h value) fun v => h.assign x v
    | _ => exact h.fail _
  | .binary operator lhs rhs =>
    h.bind (eval h lhs) fun _ => h.bind (eval h rhs) fun _ => h.ofExcept _
  | .call callee arguments =>
    h.bind (eval h callee) fun f => h.bind (evalAll h arguments) fun args => h.call f args
  | .dot object property => by
    refine h.bind (eval h object) fun _ => h.bind (h.ofExcept _) fun _ => ?_
    cases property with
    | name x => exact h.pure _
    | _ => exact h.fail _
  | .index object key =>
    h.bind (eval h object) fun _ => h.bind (h.ofExcept _) fun _ =>
      h.bind (eval h key) fun _ => h.bind (h.ofExcept _) fun _ => h.pure _
  | .object properties => h.bind (evalProperties h [] properties) fun _ => h.pure _

theorem evalAll (h : OfExpressions P call frame) : (es : List Expr) → P (evalAll call frame es)
  | [] => h.pure _
  | e :: rest => h.bind (eval h e) fun _ => h.bind (evalAll h rest) fun _ => h.pure _

theorem evalProperties (h : OfExpressions P call frame) (fields : Fields) :
    (properties : List Property) → P (evalProperties call frame fields properties)
  | [] => h.pure _
  | .shorthand key :: rest =>
    h.bind (h.lookup key) fun v => evalProperties h (fields.insert key v) rest
  | .keyed key value :: rest =>
    h.bind (eval h value) fun v => evalProperties h (fields.insert key v) rest

end

end OfExpressions

namespace OfStatements

theorem run (h : OfStatements P call frame) (stmt : Stmt) : P (stmt.run call frame) := by
  cases stmt with
  | declare constant name init? =>
    cases init? with
    | some init => exact h.bind (h.eval init) fun v => h.declare name v constant
    | none => exact h.bind (h.pure _) fun v => h.declare name v constant
  | define name params body => exact h.define name params body
  | expr e => exact h.eval e

theorem runAll (h : OfStatements P call frame) (stmts : List Stmt) (last : Value) :
    P (Stmt.runAll call frame last stmts) := by
  induction stmts generalizing last with
  | nil => exact h.pure last
  | cons stmt rest ih => exact h.bind (h.run stmt) ih

end OfStatements

end

/-! ## Composition -/

/-- Computations that are put together from operations on a state and from natives of the host, and
declare names only in frames that `own` holds of and in frames that they make. -/
inductive Composed (host : Host) : (own : FrameId → Prop) → {α : Type} → Run α → Prop
  | pure {own : FrameId → Prop} {α : Type} (a : α) : Composed host own (pure a : Run α)
  | throw {own : FrameId → Prop} {α : Type} (h : Halt) : Composed host own (throw h : Run α)
  | bind {own : FrameId → Prop} {α β : Type} {m : Run α} {f : α → Run β}
      (hm : Composed host own m) (hf : ∀ a, Composed host own (f a)) : Composed host own (m >>= f)
  | lookup {own : FrameId → Prop} (frame : FrameId) (x : String) :
      Composed host own (lookup frame x)
  | assign {own : FrameId → Prop} (frame : FrameId) (x : String) (v : Value) :
      Composed host own (assign frame x v)
  | declare {own : FrameId → Prop} {frame : FrameId} (hframe : own frame) (x : String) (v : Value)
      (constant : Bool) : Composed host own (declare frame x v constant)
  | newClosure {own : FrameId → Prop} : Composed host own newClosure
  | emit {own : FrameId → Prop} (e : Event) : Composed host own (emit e)
  /-- Makes a frame, which the rest of the computation owns. -/
  | within {own : FrameId → Prop} {α : Type} (parent : Option FrameId) {body : FrameId → Run α}
      (hbody : ∀ f, Composed host (fun g => own g ∨ g = f) (body f)) :
      Composed host own (newFrame parent >>= body)
  | native {own : FrameId → Prop} (n : Native) (args : List Value) (frame : FrameId) :
      Composed host own ((host.action n args).perform frame)

namespace Composed

variable {host : Host} {own : FrameId → Prop} {call : Caller}

theorem fail {α : Type} (f : Fault) : Composed host own (fail f : Run α) := .throw _

/-- Calls by `call` are composed of operations, and own no frame. -/
def Calls (host : Host) (call : Caller) : Prop :=
  ∀ own v args frame, Composed host own (call v args frame)

/-! ## Expressions and statements -/

theorem ofExpressions (hcall : Calls host call) (frame : FrameId) :
    OfExpressions (Composed host own) call frame where
  pure := .pure
  throw := .throw
  bind := .bind
  lookup := .lookup frame
  assign := .assign frame
  call v args := hcall own v args frame

theorem ofStatements (hcall : Calls host call) {frame : FrameId} (hframe : own frame) :
    OfStatements (Composed host own) call frame where
  toOfExpressions := ofExpressions hcall frame
  declare name v constant := .bind (.emit _) fun _ => .declare hframe name v constant
  define name _ _ := .bind .newClosure fun _ => .bind (.emit _) fun _ => .declare hframe name _ true

theorem eval (hcall : Calls host call) (frame : FrameId) (e : Expr) :
    Composed host own (e.eval call frame) :=
  (ofExpressions hcall frame).eval e

theorem run (hcall : Calls host call) {frame : FrameId} (hframe : own frame) (stmt : Stmt) :
    Composed host own (stmt.run call frame) :=
  (ofStatements hcall hframe).run stmt

theorem runAll (hcall : Calls host call) {frame : FrameId} (hframe : own frame)
    (stmts : List Stmt) (last : Value) :
    Composed host own (Stmt.runAll call frame last stmts) :=
  (ofStatements hcall hframe).runAll stmts last

/-! ## Calls -/

theorem bindAll {frame : FrameId} (hframe : own frame) (params : List (String × Value)) :
    Composed host own (Run.bind frame params) := by
  induction params with
  | nil => exact .pure ()
  | cons param rest ih => exact .bind (.declare hframe param.1 param.2 false) fun _ => ih

theorem enter (hcall : Calls host call) (c : Closure) (args : List Value) :
    Composed host own (enter call c args) := by
  unfold Run.enter
  by_cases hlength : args.length = c.params.length
  · rw [if_pos hlength]
    refine .bind (.emit _) fun _ => .within _ fun scope => ?_
    -- The names of a call are declared in the frame that was made for it.
    exact .bind (bindAll (.inr rfl) _) fun _ => runAll hcall (.inr rfl) c.body .null
  · rw [if_neg hlength]
    exact .fail _

theorem apply (hcall : Calls host call) : Calls host (apply host call) := by
  intro own v args frame
  cases v with
  | native n => exact .bind (.emit _) fun _ => .native n args frame
  | function c => exact enter hcall c args
  | null | number | bool | object => exact .fail _

theorem calls (host : Host) (depth : Nat) : Calls host (Run.call host depth) := by
  induction depth with
  | zero => exact fun _ _ _ _ => .throw _
  | succ depth ih => exact apply ih

theorem program (host : Host) (depth : Nat) {frame : FrameId} (hframe : own frame) (p : Program) :
    Composed host own (p.run host depth frame) :=
  runAll (calls host depth) hframe p.body .null

end Composed

/-- What holds of all operations on a state, and passes to sequences of them. -/
structure OfOperations (P : {α : Type} → Run α → Prop) : Prop where
  pure : ∀ {α : Type} (a : α), P (pure a : Run α)
  throw : ∀ {α : Type} (h : Halt), P (throw h : Run α)
  bind : ∀ {α β : Type} {m : Run α} {f : α → Run β}, P m → (∀ a, P (f a)) → P (m >>= f)
  attempt : ∀ {α : Type} {m : Run α}, P m → P m.attempt
  query : ∀ {α : Type} (q : Store → Except Halt α), P (query q)
  assign : ∀ frame x v, P (assign frame x v)
  declare : ∀ frame x v constant, P (declare frame x v constant)
  newFrame : ∀ parent, P (newFrame parent)
  newClosure : P newClosure
  emit : ∀ e, P (emit e)
  write : ∀ text, P (write text)
  readClock : P readClock

namespace OfOperations

variable {P : {α : Type} → Run α → Prop}

/-- Natives do nothing but operations on the frame that they are called from, print and read the
clock. -/
theorem perform (h : OfOperations P) (frame : FrameId) (act : Action) : P (act.perform frame) := by
  induction act with
  | done v => exact h.pure v
  | fail f => exact h.throw _
  | lookup name next ih =>
    rw [Action.perform, lookup_eq_query]
    exact h.bind (h.attempt (h.query _)) ih
  | assign name v next ih => exact h.bind (h.attempt (h.assign frame name v)) ih
  | declare name v constant next ih =>
    exact h.bind (h.attempt (h.declare frame name v constant)) ih
  | resolve name next ih =>
    rw [Action.perform, resolve_eq_query]
    exact h.bind (h.attempt (h.query _)) ih
  | parent next ih =>
    rw [Action.perform, frame_eq_query]
    exact h.bind (h.query _) fun f => ih f.parent
  | isConstant name next ih =>
    rw [Action.perform, frame_eq_query]
    exact h.bind (h.query _) fun f => ih (f.isConstant name)
  | print text next ih => exact h.bind (h.attempt (h.write text)) ih
  | clock next ih => exact h.bind h.readClock ih

theorem composed (h : OfOperations P) {host : Host} {own : FrameId → Prop} {α : Type} {m : Run α}
    (hm : Composed host own m) : P m := by
  induction hm with
  | pure a => exact h.pure a
  | throw e => exact h.throw e
  | bind _ _ ihm ihf => exact h.bind ihm ihf
  | lookup frame x =>
    rw [lookup_eq_query]
    exact h.query _
  | assign frame x v => exact h.assign frame x v
  | declare _ x v constant => exact h.declare _ x v constant
  | newClosure => exact h.newClosure
  | emit e => exact h.emit e
  | within parent _ ih => exact h.bind (h.newFrame parent) ih
  | native n args frame => exact h.perform frame _

end OfOperations

/-! ## What every evaluation does to a state -/

/-- Wherever a computation starts, `R` relates the state there to the one that it ends in. -/
def Guarantees (R : State → State → Prop) {α : Type} (m : Run α) : Prop := ∀ s, R s (m.final s)

/-- What all operations guarantee, and what passes to sequences of them. -/
structure IsGuarantee (R : State → State → Prop) : Prop where
  refl : ∀ s, R s s
  trans : ∀ {s t u}, R s t → R t u → R s u
  assign : ∀ frame x v, Guarantees R (assign frame x v)
  declare : ∀ frame x v constant, Guarantees R (declare frame x v constant)
  newFrame : ∀ parent, Guarantees R (newFrame parent)
  newClosure : Guarantees R newClosure
  emit : ∀ e, Guarantees R (emit e)
  write : ∀ text, Guarantees R (write text)
  readClock : Guarantees R readClock

namespace IsGuarantee

variable {R : State → State → Prop} {α β : Type}

theorem bind (hR : IsGuarantee R) {m : Run α} {f : α → Run β} (hm : Guarantees R m)
    (hf : ∀ a, Guarantees R (f a)) : Guarantees R (m >>= f) := by
  intro s
  cases h : m.outcome s with
  | ok a =>
    rw [final_bind_of_ok h]
    exact hR.trans (hm s) (hf a (m.final s))
  | error e =>
    rw [final_bind_of_error h]
    exact hm s

theorem query (hR : IsGuarantee R) (q : Store → Except Halt α) : Guarantees R (query q) := by
  intro s
  rw [final_query]
  exact hR.refl s

theorem attempt {m : Run α} (hm : Guarantees R m) : Guarantees R m.attempt := by
  intro s
  rw [final_attempt]
  exact hm s

theorem ofOperations (hR : IsGuarantee R) : OfOperations (Guarantees R) where
  pure _ := hR.refl
  throw _ := hR.refl
  bind := hR.bind
  attempt := attempt
  query := hR.query
  assign := hR.assign
  declare := hR.declare
  newFrame := hR.newFrame
  newClosure := hR.newClosure
  emit := hR.emit
  write := hR.write
  readClock := hR.readClock

theorem composed (hR : IsGuarantee R) {host : Host} {own : FrameId → Prop} {m : Run α}
    (hm : Composed host own m) : Guarantees R m :=
  hR.ofOperations.composed hm

end IsGuarantee

/-! ## The builtin natives -/

/-- Printing as a native does it ends as printing does. -/
theorem attempt_write_bind {α : Type} (text : String) (a : α) :
    ((write text).attempt >>= fun
      | .ok () => pure a
      | .error f => fail f) = (write text >>= fun _ => pure a) := by
  funext s
  rw [bind_apply, bind_apply, final_attempt]
  unfold outcome attempt
  rw [write_apply]
  cases (s.sink.write text.toUTF8.data).1 <;> rfl

theorem builtin_action_cases (n : Native) (args : List Value) :
    Builtin.host.action n args = Builtin.print args ∨
      Builtin.host.action n args = Builtin.clock args ∨
      Builtin.host.action n args = Builtin.sqrt args ∨
      Builtin.host.action n args = .done .null := by
  obtain ⟨identity, name⟩ := n
  match identity with
  | 0 => exact .inl rfl
  | 1 => exact .inr (.inl rfl)
  | 2 => exact .inr (.inr (.inl rfl))
  | _ + 3 => exact .inr (.inr (.inr rfl))

theorem exists_number_of_seconds {now : Instant} {v : Value}
    (h : now.seconds.map .number = .ok v) : ∃ x, v = .number x := by
  cases hnow : now.seconds with
  | ok x =>
    rw [hnow] at h
    exact ⟨x, (Except.ok.inj h).symm⟩
  | error f =>
    rw [hnow] at h
    cases h

theorem eq_clockBeforeEpoch_of_seconds {now : Instant} {f : Fault}
    (h : now.seconds.map Value.number = .error f) : f = .clockBeforeEpoch := by
  unfold Instant.seconds at h
  split at h
  · exact (Except.error.inj h).symm
  · cases h

/-- A builtin native prints a text, ends at once with null, a number or a fault, or reads the clock
and answers with the seconds that it shows. -/
theorem perform_builtin_cases (n : Native) (args : List Value) (frame : FrameId) :
    (∃ text, (Builtin.host.action n args).perform frame = write text >>= fun _ => pure .null) ∨
      (∃ v, (v = .null ∨ ∃ x, v = .number x) ∧
        (Builtin.host.action n args).perform frame = pure v) ∨
      (∃ f, f ≠ .propertyNotAName ∧ (Builtin.host.action n args).perform frame = fail f) ∨
      (Builtin.host.action n args).perform frame =
        readClock >>= fun now => ofExcept (now.seconds.map .number) := by
  obtain h | h | h | h := builtin_action_cases n args
  · rw [h]
    refine .inl ⟨_, (bind_congr fun r => ?_).trans (attempt_write_bind _ Value.null)⟩
    cases r <;> rfl
  · rw [h]
    unfold Builtin.clock Builtin.withArguments
    split
    · exact .inr (.inr (.inr (bind_congr fun now => perform_ofResult frame _)))
    · exact .inr (.inr (.inl ⟨_, by simp, rfl⟩))
  · rw [h]
    unfold Builtin.sqrt Builtin.withArguments
    split
    · split
      · exact .inr (.inl ⟨_, .inr ⟨_, rfl⟩, rfl⟩)
      · exact .inr (.inr (.inl ⟨_, by simp, rfl⟩))
      · exact .inr (.inl ⟨_, .inl rfl, rfl⟩)
    · exact .inr (.inr (.inl ⟨_, by simp, rfl⟩))
  · rw [h]
    exact .inr (.inl ⟨_, .inl rfl, rfl⟩)

/-- Builtin natives change nothing but the sink and the clock. -/
theorem exists_final_builtin (n : Native) (args : List Value) (frame : FrameId) (s : State) :
    ∃ sink clock, ((Builtin.host.action n args).perform frame).final s =
      { s with sink := sink, clock := clock } := by
  obtain ⟨text, h⟩ | ⟨v, -, h⟩ | ⟨f, -, h⟩ | h := perform_builtin_cases n args frame
  all_goals rw [h]
  · refine ⟨(s.sink.write text.toUTF8.data).2, s.clock, ?_⟩
    cases hwrite : (write text).outcome s with
    | ok u => rw [final_bind_of_ok hwrite, final_pure, final_write]
    | error e => rw [final_bind_of_error hwrite, final_write]
  · exact ⟨s.sink, s.clock, rfl⟩
  · exact ⟨s.sink, s.clock, rfl⟩
  · refine ⟨s.sink, s.clock.tick, ?_⟩
    rw [final_bind_of_ok (outcome_readClock s), final_ofExcept, final_readClock]

end ScopeScript.Run
