import ScopeScript.Proofs.Number.Classes
import ScopeScript.Proofs.Session.Joining
import ScopeScript.Proofs.Syntax.Arithmetic

/-!
# Arithmetic in sessions

The value of a chain of operations is what its numbers give in the order of precedence, the left
part of an operator computed before its right operand, and both before it is applied.  The first
division or remainder by a zero, in this order, is the fault that the chain ends with
(`Session.eval_chain`).
-/

namespace ScopeScript

/-- What an operator gives for two numbers, as far as floating-point numbers go. -/
def Operator.value : Operator → Float → Float → Float
  | .add, x, y => x + y
  | .sub, x, y => x - y
  | .mul, x, y => x * y
  | .div, x, y => x / y
  | .mod, x, y => Number.remainder x y

namespace Arithmetic

/-- An operator that is applied, with the number on its right. -/
structure Step where
  operator : Operator
  right : Float

/-- A division or a remainder by one of the zeros is a fault. -/
def Step.fault? : Step → Option Fault
  | ⟨.div, y⟩ => if Number.isZero y then some .divisionByZero else none
  | ⟨.mod, y⟩ => if Number.isZero y then some .moduloByZero else none
  | _ => none

/-- The steps of a computation, the first one first, and the number that it ends with. -/
structure Computation where
  steps : List Step
  number : Float

namespace Computation

/-- The computation without a step. -/
def ofNumber (x : Float) : Computation := ⟨[], x⟩

/-- Computes the left part, and then the right operand, and then applies the operator. -/
def apply (o : Operator) (c d : Computation) : Computation :=
  ⟨c.steps ++ d.steps ++ [⟨o, d.number⟩], o.value c.number d.number⟩

/-- The fault of the first step that has one, or the number at the end. -/
def result (c : Computation) : Except Fault Float :=
  match c.steps.findSome? Step.fault? with
  | some fault => .error fault
  | none => .ok c.number

/-- The computation of a chain. -/
def ofChain (first : Operand) (links : List (Operator × Operand)) : Computation :=
  inPrecedence apply (first.fold ofNumber apply) (foldLinks ofNumber apply links)

end Computation

theorem compute_eq (o : Operator) (x y : Float) :
    o.compute x y =
      match Step.fault? ⟨o, y⟩ with
      | some fault => .error fault
      | none => .ok (o.value x y) := by
  cases o with
  | add | sub | mul => rfl
  | div | mod =>
    rw [Operator.compute, Step.fault?]
    by_cases hy : Number.isZero y = true
    · rw [if_pos (Number.beq_zero_iff.2 hy), if_pos hy]
    · rw [if_neg (hy ∘ Number.beq_zero_iff.1), if_neg hy]
      rfl

/-- The fault of the left part comes first, and then that of the right operand. -/
theorem Computation.result_apply (o : Operator) (c d : Computation) :
    (apply o c d).result = c.result >>= fun x => d.result >>= fun y => o.compute x y := by
  unfold result apply
  rw [List.findSome?_append, List.findSome?_append]
  cases c.steps.findSome? Step.fault? with
  | some fault => rfl
  | none =>
    cases d.steps.findSome? Step.fault? with
    | some fault => rfl
    | none =>
      show _ = o.compute c.number d.number
      rw [compute_eq]
      cases hfault : Step.fault? ⟨o, d.number⟩ with
      | some fault => simp [hfault]
      | none => simp [hfault]

end Arithmetic

namespace Run

open Arithmetic

/-- Evaluates the left part and the right operand, and applies an operator. -/
def operate (o : Operator) (m m' : Run Value) : Run Value := do
  let v ← m
  let w ← m'
  ofExcept (o.apply v w)

/-- Ends as a computation does. -/
def ofComputation (c : Computation) : Run Value := ofExcept (c.result.map Value.number)

theorem ofComputation_apply (o : Operator) (c d : Computation) :
    ofComputation (.apply o c d) = operate o (ofComputation c) (ofComputation d) := by
  unfold ofComputation operate
  rw [Computation.result_apply]
  cases c.result with
  | error fault => rfl
  | ok x =>
    cases d.result with
    | error fault => rfl
    | ok y => rfl

/-- The expression of a chain ends as its computation does. -/
theorem eval_inPrecedence (call : Caller) (frame : FrameId) (first : Operand)
    (links : List (Operator × Operand)) :
    (inPrecedence .binary first.expr (foldLinks .number .binary links)).eval call frame =
      ofComputation (.ofChain first links) := by
  let chain := Operand.group first links
  have htree : (chain.fold Expr.number .binary).eval call frame =
      chain.fold (fun x => ofComputation (.ofNumber x)) operate :=
    map_fold (h := fun e : Expr => e.eval call frame) (fun _ _ _ => rfl) (fun _ => rfl) chain
  have hcomputation : ofComputation (chain.fold .ofNumber .apply) =
      chain.fold (fun x => ofComputation (.ofNumber x)) operate :=
    map_fold ofComputation_apply (fun _ => rfl) chain
  exact htree.trans hcomputation.symm

end Run

namespace Session

open Arithmetic

/-- A text that has the words of a chain of operations with any gaps between them: the value is that
of the computation in the order of precedence, unless a division or a remainder by a zero is the
fault.  Nothing else happens. -/
theorem eval_chain (s : Session) (depth : Nat) (first : Operand)
    (links : List (Operator × Operand)) {source : String}
    (h : Spaced ((first.words ++ linkWords links).map Token.text) source.toList) :
    ((s.eval depth source).1 =
      match (Computation.ofChain first links).result with
      | .ok x => .ok (.number x)
      | .error fault => .error (.halted (.fault fault))) ∧
    (s.eval depth source).2.state.store = s.state.store ∧
    (s.eval depth source).2.state.sink = s.state.sink := by
  obtain ⟨hvalue, -, hstate⟩ := eval_of_ofSource (ofSource_chain first links h) s depth
  have hrun (e : Expr) : (⟨[.expr e]⟩ : Program).run s.host depth top =
      e.eval (Run.call s.host depth) top := by
    show (e.eval _ top >>= fun v => pure v) = _
    exact bind_pure _
  rw [hrun, Run.eval_inPrecedence] at hvalue hstate
  unfold Run.ofComputation at hvalue hstate
  generalize (Computation.ofChain first links).result = r at hvalue hstate ⊢
  rw [hvalue]
  cases r with
  | ok x => exact ⟨rfl, hstate.store, hstate.sink⟩
  | error fault => exact ⟨rfl, hstate.store, hstate.sink⟩

/-- Products come before sums.  The first zero on the right of a remainder or of a division counts,
also behind a part that is computed without a fault. -/
theorem eval_chain_remainder :
    (∀ (s : Session) (depth : Nat), (s.eval depth "8 -2* 3").1 =
      .ok (.number (Number.ofDigitRun "8" - Number.ofDigitRun "2" * Number.ofDigitRun "3"))) ∧
    ∀ (s : Session) (depth : Nat), (s.eval depth "8 -(2) %0\n/ 0").1 =
      .error (.halted (.fault .moduloByZero)) := by
  have hdigits (text : String) (h : text ∈ ["0", "2", "3", "8"]) : Number.IsDigitRun text := by
    simp only [List.mem_cons, List.not_mem_nil, or_false] at h
    obtain rfl | rfl | rfl | rfl := h
    all_goals exact ⟨by decide, List.all_eq_true.1 (by decide)⟩
  let zero : Operand := .digits "0" (hdigits "0" (by decide))
  let two : Operand := .digits "2" (hdigits "2" (by decide))
  let three : Operand := .digits "3" (hdigits "3" (by decide))
  let eight : Operand := .digits "8" (hdigits "8" (by decide))
  have hblank : IsGap ' ' := .inl rfl
  have hnewline : IsGap '\n' := .inr rfl
  refine ⟨fun s depth => ?_, fun s depth => ?_⟩
  · have hspaced : Spaced ["8", "-", "2", "*", "3"] "8 -2* 3".toList :=
      .word (.gap hblank (.word (.word (.word (.gap hblank (.word .nil))))))
    exact (eval_chain s depth eight [(.sub, two), (.mul, three)] hspaced).1
  · have hspaced : Spaced ["8", "-", "(", "2", ")", "%", "0", "/", "0"]
        "8 -(2) %0\n/ 0".toList :=
      .word (.gap hblank (.word (.word (.word (.word (.gap hblank (.word (.word
        (.gap hnewline (.word (.gap hblank (.word .nil))))))))))))
    exact (eval_chain s depth eight [(.sub, .group two []), (.mod, zero), (.div, zero)] hspaced).1

end Session

end ScopeScript
