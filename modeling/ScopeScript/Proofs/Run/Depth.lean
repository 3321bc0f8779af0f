import ScopeScript.Proofs.Run.Operations

/-!
# Depth of calls

How deep calls may be nested decides only whether a run gets to its end.  If a run does not get too
deep, it does the same with any greater bound: it halts in the same way, in the same state.
-/

namespace ScopeScript.Run

/-- Where `m` does not get too deep, `m'` does the same. -/
def Deepens {α : Type} (m m' : Run α) : Prop := ∀ s, m.outcome s ≠ .error .tooDeep → m' s = m s

namespace Deepens

variable {α β : Type} {call call' : Caller}

theorem refl (m : Run α) : Deepens m m := fun _ _ => rfl

theorem bind {m m' : Run α} {f f' : α → Run β} (hm : Deepens m m')
    (hf : ∀ a, Deepens (f a) (f' a)) : Deepens (m >>= f) (m' >>= f') := by
  intro s h
  have hfirst : m' s = m s := hm s fun hdeep => h (outcome_bind_of_error hdeep)
  have houtcome : m'.outcome s = m.outcome s := by rw [outcome, hfirst, ← outcome]
  have hfinal : m'.final s = m.final s := by rw [final, hfirst, ← final]
  rw [bind_apply, bind_apply, houtcome, hfinal]
  cases ha : m.outcome s with
  | ok a =>
    rw [outcome_bind_of_ok ha] at h
    exact hf a (m.final s) h
  | error e => rfl

/-- What follows the same computation. -/
theorem after (m : Run α) {f f' : α → Run β} (hf : ∀ a, Deepens (f a) (f' a)) :
    Deepens (m >>= f) (m >>= f') := (refl m).bind hf

/-- Calls by `call'` do what calls by `call` do unless these get too deep. -/
def Calls (call call' : Caller) : Prop :=
  ∀ v args frame, Deepens (call v args frame) (call' v args frame)

/-! ## Expressions -/

mutual

theorem eval (hcall : Calls call call') (frame : FrameId) : (e : Expr) →
    Deepens (e.eval call frame) (e.eval call' frame)
  | .null => .refl _
  | .number _ => .refl _
  | .name x => .refl _
  | .assign target value => by
    cases target with
    | name x => exact (eval hcall frame value).bind fun _ => .refl _
    | _ => exact .refl _
  | .binary operator lhs rhs =>
    (eval hcall frame lhs).bind fun _ => (eval hcall frame rhs).bind fun _ => .refl _
  | .call callee arguments =>
    (eval hcall frame callee).bind fun f =>
      (evalAll hcall frame arguments).bind fun args => hcall f args frame
  | .dot object property => (eval hcall frame object).bind fun _ => .refl _
  | .index object key =>
    (eval hcall frame object).bind fun _ => .after _ fun _ =>
      (eval hcall frame key).bind fun _ => .refl _
  | .object properties => (evalProperties hcall frame [] properties).bind fun _ => .refl _

theorem evalAll (hcall : Calls call call') (frame : FrameId) : (es : List Expr) →
    Deepens (evalAll call frame es) (evalAll call' frame es)
  | [] => .refl _
  | e :: rest => (eval hcall frame e).bind fun _ => (evalAll hcall frame rest).bind fun _ => .refl _

theorem evalProperties (hcall : Calls call call') (frame : FrameId) (fields : Fields) :
    (properties : List Property) →
    Deepens (evalProperties call frame fields properties)
      (evalProperties call' frame fields properties)
  | [] => .refl _
  | .shorthand key :: rest =>
    .after _ fun v => evalProperties hcall frame (fields.insert key v) rest
  | .keyed key value :: rest =>
    (eval hcall frame value).bind fun v => evalProperties hcall frame (fields.insert key v) rest

end

/-! ## Statements -/

theorem run (hcall : Calls call call') (frame : FrameId) (stmt : Stmt) :
    Deepens (stmt.run call frame) (stmt.run call' frame) := by
  cases stmt with
  | declare constant name init? =>
    cases init? with
    | some init => exact (eval hcall frame init).bind fun _ => .refl _
    | none => exact .refl _
  | define name params body => exact .refl _
  | expr e => exact eval hcall frame e

theorem runAll (hcall : Calls call call') (frame : FrameId) (stmts : List Stmt) (last : Value) :
    Deepens (Stmt.runAll call frame last stmts) (Stmt.runAll call' frame last stmts) := by
  induction stmts generalizing last with
  | nil => exact .refl _
  | cons stmt rest ih => exact (run hcall frame stmt).bind ih

/-! ## Calls -/

theorem enter (hcall : Calls call call') (c : Closure) (args : List Value) :
    Deepens (enter call c args) (enter call' c args) := by
  unfold Run.enter
  by_cases hlength : args.length = c.params.length
  · simp only [if_pos hlength]
    exact .after _ fun _ => .after _ fun scope => .after _ fun _ => runAll hcall scope c.body .null
  · simp only [if_neg hlength]
    exact .refl _

theorem apply (host : Host) (hcall : Calls call call') :
    Calls (apply host call) (apply host call') := by
  intro v args frame
  cases v with
  | function c => exact enter hcall c args
  | native | null | number | bool | object => exact .refl _

/-- A greater bound changes only calls that got too deep with the smaller one. -/
theorem calls (host : Host) {depth bound : Nat} (h : depth ≤ bound) :
    Calls (Run.call host depth) (Run.call host bound) := by
  induction depth generalizing bound with
  | zero => exact fun _ _ _ s hs => absurd rfl hs
  | succ depth ih =>
    obtain ⟨bound, rfl⟩ : ∃ k, bound = k + 1 := ⟨bound - 1, by omega⟩
    exact apply host (ih (by omega))

theorem program (host : Host) {depth bound : Nat} (h : depth ≤ bound) (frame : FrameId)
    (p : Program) : Deepens (p.run host depth frame) (p.run host bound frame) :=
  runAll (calls host h) frame p.body .null

end Deepens

end ScopeScript.Run
