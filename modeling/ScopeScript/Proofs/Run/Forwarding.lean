import ScopeScript.Proofs.Run.Contract

/-!
# Natives that make no functions

A native may hand on the functions in its arguments, those that it finds in the frame that it is
called from, and those that the host holds.  It makes none.  So if a contract is about the functions
in values, such natives keep to it (`Contract.IsFunctionwise.isKept`).
-/

namespace ScopeScript

/-- All functions that the native hands on are known or were found in the calling frame. -/
inductive Action.Forwards : List Closure → Action → Prop
  | done {known : List Closure} {v : Value} (hv : v.closures ⊆ known) : Forwards known (.done v)
  | fail {known : List Closure} (f : Fault) : Forwards known (.fail f)
  | lookup {known : List Closure} {x : String} {next : Except Fault Value → Action}
      (hok : ∀ v, Forwards (v.closures ++ known) (next (.ok v)))
      (herror : ∀ f, Forwards known (next (.error f))) : Forwards known (.lookup x next)
  | assign {known : List Closure} {x : String} {v : Value} {next : Except Fault Value → Action}
      (hv : v.closures ⊆ known) (hok : ∀ v, Forwards (v.closures ++ known) (next (.ok v)))
      (herror : ∀ f, Forwards known (next (.error f))) : Forwards known (.assign x v next)
  | declare {known : List Closure} {x : String} {v : Value} {constant : Bool}
      {next : Except Fault Value → Action} (hv : v.closures ⊆ known)
      (hok : ∀ v, Forwards (v.closures ++ known) (next (.ok v)))
      (herror : ∀ f, Forwards known (next (.error f))) :
      Forwards known (.declare x v constant next)
  | resolve {known : List Closure} {x : String} {next : Except Fault FrameId → Action}
      (h : ∀ r, Forwards known (next r)) : Forwards known (.resolve x next)
  | parent {known : List Closure} {next : Option FrameId → Action}
      (h : ∀ r, Forwards known (next r)) : Forwards known (.parent next)
  | isConstant {known : List Closure} {x : String} {next : Bool → Action}
      (h : ∀ b, Forwards known (next b)) : Forwards known (.isConstant x next)
  | print {known : List Closure} {text : String} {next : Except Fault Unit → Action}
      (h : ∀ r, Forwards known (next r)) : Forwards known (.print text next)
  | clock {known : List Closure} {next : Instant → Action}
      (h : ∀ now, Forwards known (next now)) : Forwards known (.clock next)

theorem Action.Forwards.mono {act : Action} {known more : List Closure} (h : act.Forwards known)
    (hsub : known ⊆ more) : act.Forwards more := by
  have happend {known more : List Closure} (v : Value) (hsub : known ⊆ more) :
      v.closures ++ known ⊆ v.closures ++ more :=
    List.append_subset.2
      ⟨List.subset_append_left _ _, fun _ hc => List.mem_append_right _ (hsub hc)⟩
  induction h generalizing more with
  | done hv => exact .done fun _ hc => hsub (hv hc)
  | fail f => exact .fail f
  | lookup _ _ ihok iherror =>
    exact .lookup (fun v => ihok v (happend v hsub)) fun f => iherror f hsub
  | assign hv _ _ ihok iherror =>
    exact .assign (fun _ hc => hsub (hv hc)) (fun v => ihok v (happend v hsub))
      fun f => iherror f hsub
  | declare hv _ _ ihok iherror =>
    exact .declare (fun _ hc => hsub (hv hc)) (fun v => ihok v (happend v hsub))
      fun f => iherror f hsub
  | resolve _ ih => exact .resolve fun r => ih r hsub
  | parent _ ih => exact .parent fun r => ih r hsub
  | isConstant _ ih => exact .isConstant fun b => ih b hsub
  | print _ ih => exact .print fun r => ih r hsub
  | clock _ ih => exact .clock fun now => ih now hsub

/-- A native that hands on only functions in its arguments and functions that it found. -/
def Action.Forwarding (act : List Value → Action) : Prop :=
  ∀ args, (act args).Forwards (args.flatMap Value.closures)

namespace Host

/-- All natives of the host do so. -/
def Forwarding (host : Host) : Prop := ∀ n, Action.Forwarding (host.action n)

/-- All natives of the host hand on only such functions and the given ones, which the host holds. -/
def ForwardingWith (host : Host) (held : List Closure) : Prop :=
  ∀ n args, (host.action n args).Forwards (held ++ args.flatMap Value.closures)

variable {host : Host}

theorem Forwarding.forwardingWith (h : host.Forwarding) (held : List Closure) :
    host.ForwardingWith held :=
  fun n args => (h n args).mono (List.subset_append_right held _)

theorem Forwarding.add (h : host.Forwarding) (name : String) {act : List Value → Action}
    (hact : Action.Forwarding act) : (host.add name act).2.Forwarding := by
  intro n args
  by_cases hn : n.identity = host.actions.size
  · have haction : (host.add name act).2.action n args = act args := by
      simp [Host.add, Host.action, hn]
    rw [haction]
    exact hact args
  · have haction : (host.add name act).2.action n args = host.action n args := by
      simp [Host.add, Host.action, Array.getElem?_push, hn]
    rw [haction]
    exact h n args

end Host

theorem Builtin.forwarding_host : Builtin.host.Forwarding := by
  intro n args
  have hnumber (x : Float) : (Value.number x).closures ⊆ args.flatMap Value.closures :=
    List.nil_subset _
  have hnull : Value.null.closures ⊆ args.flatMap Value.closures := List.nil_subset _
  obtain h | h | h | h := Run.builtin_action_cases n args
  all_goals rw [h]
  · refine .print fun r => ?_
    cases r with
    | ok u => exact .done hnull
    | error f => exact .fail f
  · unfold Builtin.clock Builtin.withArguments
    split
    · refine .clock fun now => ?_
      cases now.seconds with
      | ok x => exact .done (hnumber x)
      | error f => exact .fail f
    · exact .fail _
  · unfold Builtin.sqrt Builtin.withArguments
    repeat' split
    all_goals first
      | exact .done (hnumber _)
      | exact .done hnull
      | exact .fail _
  · exact .done hnull

/-! ## Contracts about functions -/

namespace Contract

variable {C : Contract}

/-- A value is allowed if the functions in it are.  Runs may end with any fault, as natives do, and
the contract says what asking for a frame comes to, which only natives ask for. -/
structure IsFunctionwise (C : Contract) : Prop extends C.IsLawful where
  value_iff : ∀ {s : Store} {v : Value},
    C.value s v ↔ ∀ c ∈ v.closures, C.value s (.function c)
  anyFault : ∀ f, C.halt (.fault f)
  resolve : ∀ {s : Store} {f : FrameId}, C.store s → C.frame s f → ∀ x h,
    s.resolve f x = .error h → C.halt h
  missing : ∀ {s : Store} {f : FrameId}, C.store s → C.frame s f → ∀ h,
    s.frame f = .error h → C.halt h

namespace IsFunctionwise

variable {known : List Closure} {v : Value} {s t : Store}

theorem value_of_subset (hC : C.IsFunctionwise) (hknown : ∀ c ∈ known, C.value s (.function c))
    (hv : v.closures ⊆ known) : C.value s v :=
  hC.value_iff.2 fun c hc => hknown c (hv hc)

theorem known_append (hC : C.IsFunctionwise) (hknown : ∀ c ∈ known, C.value s (.function c))
    (hst : s.Keeps t) (hv : C.value t v) : ∀ c ∈ v.closures ++ known, C.value t (.function c) :=
  List.forall_mem_append.2
    ⟨hC.value_iff.1 hv, fun c hc => hC.value_mono hst (hknown c hc)⟩

/-- Natives that hand on only what they were given or found end as the contract says. -/
theorem perform_ends (hC : C.IsFunctionwise) {act : Action} (hact : act.Forwards known)
    {f : FrameId} {s : State} (hs : C.store s.store) (hf : C.frame s.store f)
    (hknown : ∀ c ∈ known, C.value s.store (.function c)) :
    C.Ends C.value (act.perform f) s := by
  have hlater {s t : State} {known : List Closure} (hst : s.store.Keeps t.store)
      (hknown : ∀ c ∈ known, C.value s.store (.function c)) :
      ∀ c ∈ known, C.value t.store (.function c) :=
    fun c hc => hC.value_mono hst (hknown c hc)
  induction hact generalizing s with
  | done hv => exact .pure hs (hC.value_of_subset hknown hv)
  | fail e => exact .throw hs (hC.anyFault e)
  | lookup _ _ ihok iherror =>
    refine (hC.lookup_ends hs hf _).attempt.andThen fun r t ht hst hr => ?_
    have hft := hC.frame_mono hst hf
    cases r with
    | ok v => exact ihok v ht hft (hC.known_append hknown hst (hr v rfl))
    | error e => exact iherror e ht hft (hlater hst hknown)
  | assign hv _ _ ihok iherror =>
    refine (hC.assign_ends hs hf (hC.value_of_subset hknown hv) _).attempt.andThen
      fun r t ht hst hr => ?_
    have hft := hC.frame_mono hst hf
    cases r with
    | ok v => exact ihok v ht hft (hC.known_append hknown hst (hr v rfl))
    | error e => exact iherror e ht hft (hlater hst hknown)
  | declare hv _ _ ihok iherror =>
    refine (hC.declare_ends hs hf (hC.value_of_subset hknown hv) _ _).attempt.andThen
      fun r t ht hst hr => ?_
    have hft := hC.frame_mono hst hf
    cases r with
    | ok v => exact ihok v ht hft (hC.known_append hknown hst (hr v rfl))
    | error e => exact iherror e ht hft (hlater hst hknown)
  | @resolve known x next _ ih =>
    have hquery : C.Ends (fun _ _ => True) (Run.resolve f x) s := by
      rw [Run.resolve_eq_query]
      exact .query hs (fun _ _ => trivial) (hC.resolve hs hf x)
    exact hquery.attempt.andThen fun r t ht hst _ =>
      ih r ht (hC.frame_mono hst hf) (hlater hst hknown)
  | parent _ ih | isConstant _ ih =>
    have hquery : C.Ends (fun _ _ => True) (Run.frame f) s := by
      rw [Run.frame_eq_query]
      exact .query hs (fun _ _ => trivial) (hC.missing hs hf)
    exact hquery.andThen fun r t ht hst _ => ih _ ht (hC.frame_mono hst hf) (hlater hst hknown)
  | @print known text next _ ih =>
    exact (Ends.write text hs (hC.anyFault _)).attempt.andThen fun r t ht hst _ =>
      ih r ht (hC.frame_mono hst hf) (hlater hst hknown)
  | clock _ ih =>
    exact (Ends.readClock hs).andThen fun now t ht hst _ =>
      ih now ht (hC.frame_mono hst hf) (hlater hst hknown)

/-- A host keeps to such a contract if the functions that it holds are allowed. -/
theorem isKept (hC : C.IsFunctionwise) {host : Host} {held : List Closure}
    (hhost : host.ForwardingWith held)
    (hheld : ∀ {s : Store}, C.store s → ∀ c ∈ held, C.value s (.function c)) :
    C.IsKept host where
  toIsLawful := hC.toIsLawful
  native n args f s hs hf hargs := by
    refine hC.perform_ends (hhost n args) hs hf (List.forall_mem_append.2 ⟨hheld hs, ?_⟩)
    intro c hc
    obtain ⟨v, hv, hc⟩ := List.mem_flatMap.1 hc
    exact hC.value_iff.1 (hargs v hv) c hc

end IsFunctionwise

end Contract

end ScopeScript
