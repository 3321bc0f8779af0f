import ScopeScript.Proofs.Run.Contract

/-!
# What natives hand on

A native hands values on: it answers with them, assigns them and declares them.  If it hands on only
values of a sort as long as it is given and finds only such values, it keeps to the contracts that
are about that sort of values alone (`Contract.IsLawful.isKept_of_handsOn`).  Every native hands on
values, so that contracts about no sort of values are kept by all.
-/

namespace ScopeScript

/-- As long as it finds only values that `P` holds of, the native hands on only such values. -/
inductive Action.HandsOn (P : Value → Prop) : Action → Prop
  | done {v : Value} (hv : P v) : HandsOn P (.done v)
  | fail (f : Fault) : HandsOn P (.fail f)
  | lookup {x : String} {next : Except Fault Value → Action}
      (h : ∀ r, (∀ v, r = .ok v → P v) → HandsOn P (next r)) : HandsOn P (.lookup x next)
  | assign {x : String} {v : Value} {next : Except Fault Value → Action} (hv : P v)
      (h : ∀ r, (∀ v, r = .ok v → P v) → HandsOn P (next r)) : HandsOn P (.assign x v next)
  | declare {x : String} {v : Value} {constant : Bool} {next : Except Fault Value → Action}
      (hv : P v) (h : ∀ r, (∀ v, r = .ok v → P v) → HandsOn P (next r)) :
      HandsOn P (.declare x v constant next)
  | resolve {x : String} {next : Except Fault FrameId → Action} (h : ∀ r, HandsOn P (next r)) :
      HandsOn P (.resolve x next)
  | parent {next : Option FrameId → Action} (h : ∀ r, HandsOn P (next r)) :
      HandsOn P (.parent next)
  | isConstant {x : String} {next : Bool → Action} (h : ∀ b, HandsOn P (next b)) :
      HandsOn P (.isConstant x next)
  | print {text : String} {next : Except Fault Unit → Action} (h : ∀ r, HandsOn P (next r)) :
      HandsOn P (.print text next)
  | clock {next : Instant → Action} (h : ∀ now, HandsOn P (next now)) : HandsOn P (.clock next)

/-- Given only values that `P` holds of, the natives of the host hand on only such values. -/
def Host.HandsOn (P : Value → Prop) (host : Host) : Prop :=
  ∀ n args, (∀ v ∈ args, P v) → (host.action n args).HandsOn P

theorem Action.handsOn_true (act : Action) : act.HandsOn fun _ => True := by
  induction act with
  | done v => exact .done trivial
  | fail f => exact .fail f
  | lookup x next ih => exact .lookup fun r _ => ih r
  | assign x v next ih => exact .assign trivial fun r _ => ih r
  | declare x v constant next ih => exact .declare trivial fun r _ => ih r
  | resolve x next ih => exact .resolve ih
  | parent next ih => exact .parent ih
  | isConstant x next ih => exact .isConstant ih
  | print text next ih => exact .print ih
  | clock next ih => exact .clock ih

/-- Builtin natives answer with null and with numbers. -/
theorem Builtin.handsOn_host {P : Value → Prop} (hnull : P .null) (hnumber : ∀ x, P (.number x)) :
    Builtin.host.HandsOn P := by
  intro n args _
  obtain h | h | h | h := Run.builtin_action_cases n args
  all_goals rw [h]
  · refine .print fun r => ?_
    cases r with
    | ok u => exact .done hnull
    | error f => exact .fail f
  · unfold Builtin.clock Builtin.withArguments
    split
    · refine .clock fun now => ?_
      cases now.seconds with
      | ok x => exact .done (hnumber x)
      | error f => exact .fail f
    · exact .fail _
  · unfold Builtin.sqrt Builtin.withArguments
    repeat' split
    all_goals first
      | exact .done (hnumber _)
      | exact .done hnull
      | exact .fail _
  · exact .done hnull

namespace Contract.IsLawful

variable {C : Contract} {P : Value → Prop} {host : Host}

/-- A native ends as a contract says that allows the values that it hands on, and all halts. -/
theorem perform_ends (hC : C.IsLawful) (hvalue : ∀ s v, C.value s v ↔ P v) (hhalt : ∀ h, C.halt h)
    {act : Action} (hact : act.HandsOn P) {f : FrameId} {s : State} (hs : C.store s.store)
    (hf : C.frame s.store f) : C.Ends C.value (act.perform f) s := by
  induction hact generalizing s with
  | done hv => exact .pure hs ((hvalue _ _).2 hv)
  | fail e => exact .throw hs (hhalt _)
  | lookup _ ih =>
    exact (hC.lookup_ends hs hf _).attempt.andThen fun r t ht hst hr =>
      ih r (fun v hv => (hvalue _ v).1 (hr v hv)) ht (hC.frame_mono hst hf)
  | assign hv _ ih =>
    exact (hC.assign_ends hs hf ((hvalue _ _).2 hv) _).attempt.andThen fun r t ht hst hr =>
      ih r (fun v hv => (hvalue _ v).1 (hr v hv)) ht (hC.frame_mono hst hf)
  | declare hv _ ih =>
    exact (hC.declare_ends hs hf ((hvalue _ _).2 hv) _ _).attempt.andThen fun r t ht hst hr =>
      ih r (fun v hv => (hvalue _ v).1 (hr v hv)) ht (hC.frame_mono hst hf)
  | @resolve x next _ ih =>
    have hquery : C.Ends (fun _ _ => True) (Run.resolve f x) s := by
      rw [Run.resolve_eq_query]
      exact .query hs (fun _ _ => trivial) fun h _ => hhalt h
    exact hquery.attempt.andThen fun r t ht hst _ => ih r ht (hC.frame_mono hst hf)
  | parent _ ih | isConstant _ ih =>
    have hquery : C.Ends (fun _ _ => True) (Run.frame f) s := by
      rw [Run.frame_eq_query]
      exact .query hs (fun _ _ => trivial) fun h _ => hhalt h
    exact hquery.andThen fun r t ht hst _ => ih _ ht (hC.frame_mono hst hf)
  | @print text next _ ih =>
    exact (Ends.write text hs (hhalt _)).attempt.andThen fun r t ht hst _ =>
      ih r ht (hC.frame_mono hst hf)
  | clock _ ih =>
    exact (Ends.readClock hs).andThen fun now t ht hst _ => ih now ht (hC.frame_mono hst hf)

theorem isKept_of_handsOn (hC : C.IsLawful) (hvalue : ∀ s v, C.value s v ↔ P v)
    (hhalt : ∀ h, C.halt h) (hhost : host.HandsOn P) : C.IsKept host where
  toIsLawful := hC
  native n args _ _ hs hf hargs :=
    hC.perform_ends hvalue hhalt (hhost n args fun v hv => (hvalue _ v).1 (hargs v hv)) hs hf

/-- Whatever natives there are, they keep to a contract that allows all values and halts. -/
theorem isKept (hC : C.IsLawful) (hvalue : ∀ s v, C.value s v) (hhalt : ∀ h, C.halt h)
    (host : Host) : C.IsKept host :=
  hC.isKept_of_handsOn (fun s v => iff_true_intro (hvalue s v)) hhalt fun n args _ =>
    (host.action n args).handsOn_true

end Contract.IsLawful

end ScopeScript
