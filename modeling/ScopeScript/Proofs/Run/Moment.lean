import Mathlib.Logic.Relation
import ScopeScript.Proofs.Run.Contract

/-!
# The moments of a run

A run passes through moments: at each of them some expression, statement, body or call is about to
be evaluated in a frame.  `Moment.Next` says which moments come directly inside of one, in the order
of evaluation.  A contract that holds at one moment holds at all moments inside of it.
-/

namespace ScopeScript

/-- What is about to be evaluated. -/
inductive Code where
  | expr (e : Expr)
  | stmt (stmt : Stmt)
  | body (stmts : List Stmt)
  | call (callee : Value) (arguments : List Value)

/-- Code that is about to be evaluated in a frame, with calls nested up to the given depth. -/
structure Moment where
  depth : Nat
  frame : FrameId
  code : Code
  state : State

namespace Moment

/-- The evaluation that starts at the moment. -/
def run (host : Host) (m : Moment) : Run Value :=
  match m.code with
  | .expr e => e.eval (Run.call host m.depth) m.frame
  | .stmt stmt => stmt.run (Run.call host m.depth) m.frame
  | .body stmts => Stmt.runAll (Run.call host m.depth) m.frame .null stmts
  | .call callee arguments => Run.call host m.depth callee arguments m.frame

/-- The second moment comes inside of the first one: its code is a part of the code there, and what
is evaluated before that part has been evaluated. -/
inductive Next (host : Host) : Moment → Moment → Prop
  | value {d : Nat} {f : FrameId} {x : String} {e : Expr} {s : State} :
      Next host ⟨d, f, .expr (.assign (.name x) e), s⟩ ⟨d, f, .expr e, s⟩
  | lhs {d : Nat} {f : FrameId} {operator : Operator} {lhs rhs : Expr} {s : State} :
      Next host ⟨d, f, .expr (.binary operator lhs rhs), s⟩ ⟨d, f, .expr lhs, s⟩
  | rhs {d : Nat} {f : FrameId} {operator : Operator} {lhs rhs : Expr} {s : State} {v : Value}
      (h : (lhs.eval (Run.call host d) f).outcome s = .ok v) :
      Next host ⟨d, f, .expr (.binary operator lhs rhs), s⟩
        ⟨d, f, .expr rhs, (lhs.eval (Run.call host d) f).final s⟩
  | callee {d : Nat} {f : FrameId} {callee : Expr} {arguments : List Expr} {s : State} :
      Next host ⟨d, f, .expr (.call callee arguments), s⟩ ⟨d, f, .expr callee, s⟩
  | argument {d : Nat} {f : FrameId} {callee e : Expr} {before after : List Expr} {s : State}
      {v : Value} {args : List Value} (hv : (callee.eval (Run.call host d) f).outcome s = .ok v)
      (hargs : (evalAll (Run.call host d) f before).outcome
        ((callee.eval (Run.call host d) f).final s) = .ok args) :
      Next host ⟨d, f, .expr (.call callee (before ++ e :: after)), s⟩
        ⟨d, f, .expr e, (evalAll (Run.call host d) f before).final
          ((callee.eval (Run.call host d) f).final s)⟩
  | call {d : Nat} {f : FrameId} {callee : Expr} {arguments : List Expr} {s : State} {v : Value}
      {args : List Value} (hv : (callee.eval (Run.call host d) f).outcome s = .ok v)
      (hargs : (evalAll (Run.call host d) f arguments).outcome
        ((callee.eval (Run.call host d) f).final s) = .ok args) :
      Next host ⟨d, f, .expr (.call callee arguments), s⟩
        ⟨d, f, .call v args, (evalAll (Run.call host d) f arguments).final
          ((callee.eval (Run.call host d) f).final s)⟩
  | owner {d : Nat} {f : FrameId} {object property : Expr} {s : State} :
      Next host ⟨d, f, .expr (.dot object property), s⟩ ⟨d, f, .expr object, s⟩
  | indexed {d : Nat} {f : FrameId} {object key : Expr} {s : State} :
      Next host ⟨d, f, .expr (.index object key), s⟩ ⟨d, f, .expr object, s⟩
  | key {d : Nat} {f : FrameId} {object key : Expr} {s : State} {fields : Fields}
      (h : (object.eval (Run.call host d) f).outcome s = .ok (.object fields)) :
      Next host ⟨d, f, .expr (.index object key), s⟩
        ⟨d, f, .expr key, (object.eval (Run.call host d) f).final s⟩
  | property {d : Nat} {f : FrameId} {x : String} {e : Expr} {before after : List Property}
      {s : State} {fields : Fields}
      (h : (evalProperties (Run.call host d) f [] before).outcome s = .ok fields) :
      Next host ⟨d, f, .expr (.object (before ++ .keyed x e :: after)), s⟩
        ⟨d, f, .expr e, (evalProperties (Run.call host d) f [] before).final s⟩
  | init {d : Nat} {f : FrameId} {constant : Bool} {x : String} {e : Expr} {s : State} :
      Next host ⟨d, f, .stmt (.declare constant x (some e)), s⟩ ⟨d, f, .expr e, s⟩
  | expr {d : Nat} {f : FrameId} {e : Expr} {s : State} :
      Next host ⟨d, f, .stmt (.expr e), s⟩ ⟨d, f, .expr e, s⟩
  | stmt {d : Nat} {f : FrameId} {stmt : Stmt} {before after : List Stmt} {s : State} {v : Value}
      (h : (Stmt.runAll (Run.call host d) f .null before).outcome s = .ok v) :
      Next host ⟨d, f, .body (before ++ stmt :: after), s⟩
        ⟨d, f, .stmt stmt, (Stmt.runAll (Run.call host d) f .null before).final s⟩
  | enter {d : Nat} {f scope : FrameId} {c : Closure} {args : List Value} {s : State}
      (hlength : args.length = c.params.length)
      (h : (Run.openScope c args).outcome s = .ok scope) :
      Next host ⟨d + 1, f, .call (.function c) args, s⟩
        ⟨d, scope, .body c.body, (Run.openScope c args).final s⟩

/-- The contract allows what is about to be evaluated. -/
def Allowed (C : Contract) (m : Moment) : Prop :=
  match m.code with
  | .expr e => C.expr e
  | .stmt stmt => C.stmt m.state.store m.frame stmt
  | .body stmts => ∀ stmt ∈ stmts, C.stmt m.state.store m.frame stmt
  | .call callee arguments =>
    C.value m.state.store callee ∧ ∀ v ∈ arguments, C.value m.state.store v

/-- The contract allows what is about to be evaluated, in its frame and with its store. -/
structure Ready (C : Contract) (m : Moment) : Prop where
  store : C.store m.state.store
  frame : C.frame m.state.store m.frame
  allowed : m.Allowed C

variable {C : Contract} {host : Host} {m m' : Moment}

/-- The first statement of a body. -/
theorem Next.first {d : Nat} {f : FrameId} {stmt : Stmt} {after : List Stmt} {s : State} :
    Next host ⟨d, f, .body (stmt :: after), s⟩ ⟨d, f, .stmt stmt, s⟩ :=
  @Next.stmt host d f stmt [] after s .null rfl

theorem Ready.ends (h : m.Ready C) (hC : C.IsKept host) : C.Ends C.value (m.run host) m.state := by
  obtain ⟨d, f, code, s⟩ := m
  obtain ⟨hs, hf, hallowed⟩ := h
  have hcall := hC.calls d
  cases code with
  | expr e => exact hC.eval hcall e hallowed hs hf
  | stmt stmt => exact hC.run hcall hs hf hallowed
  | body stmts => exact hC.runAll hcall hs hf hallowed (hC.null _)
  | call callee arguments => exact hcall hs hallowed.1 hallowed.2 hf

/-- A moment that comes after a part of the evaluation, in the same frame. -/
theorem Ready.after {α : Type} {Q : Store → α → Prop} {part : Run α} {d : Nat} {f : FrameId}
    {code : Code} {s : State} (hpart : C.Ends Q part s) (hC : C.IsKept host)
    (hf : C.frame s.store f) (hallowed : Allowed C ⟨d, f, code, part.final s⟩) :
    Ready C ⟨d, f, code, part.final s⟩ :=
  ⟨hpart.store, hC.frame_mono hpart.keeps hf, hallowed⟩

/-- The callee and some arguments of a call are evaluated as the contract says. -/
theorem ends_of_call (hC : C.IsKept host) (d : Nat) {f : FrameId} {callee : Expr}
    {arguments before : List Expr} {s : State} (hs : C.store s.store) (hf : C.frame s.store f)
    (hallowed : C.expr (.call callee arguments)) (hbefore : before ⊆ arguments) :
    C.Ends C.value (callee.eval (Run.call host d) f) s ∧
      C.Ends (fun t args => ∀ v ∈ args, C.value t v) (evalAll (Run.call host d) f before)
        ((callee.eval (Run.call host d) f).final s) := by
  have hcallee := hC.eval (hC.calls d) callee (hC.parts hallowed _ List.mem_cons_self) hs hf
  have hexprs : ∀ e ∈ before, C.expr e := fun e he =>
    hC.parts hallowed e (List.mem_cons_of_mem _ (hbefore he))
  exact ⟨hcallee, hC.evalAll (hC.calls d) before hexprs hcallee.store
    (hC.frame_mono hcallee.keeps hf)⟩

/-- What comes directly inside of a moment is as the contract says. -/
theorem Ready.next (h : m.Ready C) (hC : C.IsKept host) (hnext : m.Next host m') : m'.Ready C := by
  obtain ⟨hs, hf, hallowed⟩ := h
  cases hnext with
  | value | lhs | callee | owner | indexed =>
    exact ⟨hs, hf, hC.parts hallowed _ (by simp [Expr.parts])⟩
  | @rhs d f operator lhs rhs s v _ =>
    have hlhs := hC.parts hallowed lhs (by simp [Expr.parts])
    exact .after (hC.eval (hC.calls d) lhs hlhs hs hf) hC hf
      (hC.parts hallowed rhs (by simp [Expr.parts]))
  | @argument d f callee e before after s v args _ _ =>
    obtain ⟨hcallee, hbefore⟩ :=
      ends_of_call hC d hs hf hallowed (List.subset_append_left before (e :: after))
    exact .after hbefore hC (hC.frame_mono hcallee.keeps hf)
      (hC.parts hallowed e (by simp [Expr.parts]))
  | @call d f callee arguments s v args hv hargs =>
    obtain ⟨hcallee, hall⟩ := ends_of_call hC d hs hf hallowed (List.Subset.refl arguments)
    exact .after hall hC (hC.frame_mono hcallee.keeps hf)
      ⟨hC.value_mono hall.keeps (hcallee.value v hv), hall.value args hargs⟩
  | @key d f object key s fields _ =>
    have hobject := hC.parts hallowed object (by simp [Expr.parts])
    exact .after (hC.eval (hC.calls d) object hobject hs hf) hC hf
      (hC.parts hallowed key (by simp [Expr.parts]))
  | @property d f x e before after s fields _ =>
    have hproperties := hC.evalProperties (hC.calls d) before hallowed
      (fun p hp => List.mem_append_left _ hp) hs hf (hC.object _)
    exact .after hproperties hC hf
      (hC.parts hallowed e (List.mem_filterMap.2 ⟨.keyed x e, by simp, rfl⟩))
  | init => exact ⟨hs, hf, hC.init hallowed⟩
  | expr => exact ⟨hs, hf, hC.statement hallowed⟩
  | @stmt d f stmt before after s v _ =>
    have hbefore := hC.runAll (hC.calls d) hs hf
      (fun stmt hmem => hallowed stmt (List.mem_append_left _ hmem)) (hC.null _)
    exact .after hbefore hC hf (hC.stmt_mono hbefore.keeps (hallowed stmt (by simp)))
  | @enter d f scope c args s _ h =>
    have hopen := hC.openScope_ends hs hallowed.1 hallowed.2
    obtain ⟨hscope, hbody⟩ := hopen.value scope h
    exact ⟨hopen.store, hscope, hbody⟩

/-- What comes inside of a moment, at any depth, is as the contract says. -/
theorem Ready.inside (h : m.Ready C) (hC : C.IsKept host)
    (hinside : Relation.ReflTransGen (Next host) m m') : m'.Ready C := by
  induction hinside with
  | refl => exact h
  | tail _ hnext ih => exact ih.next hC hnext

end Moment

end ScopeScript
