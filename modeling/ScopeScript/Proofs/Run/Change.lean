import ScopeScript.Proofs.Run.Composition

/-!
# Changes that steps do not see

What a step does depends on some parts of a state only.  A change to other parts is carried over:
the step ends in the same way, in the state changed likewise.  Operations on the store carry over
all changes that spare the store, and evaluations carry over a change that also printing and noting
events carry over.
-/

namespace ScopeScript.Run

/-- After the change, `m` ends as it does before, in the changed state. -/
def CarriesOver (change : State → State) {α : Type} (m : Run α) : Prop :=
  ∀ s, m.outcome (change s) = m.outcome s ∧ m.final (change s) = change (m.final s)

/-- A change that leaves the store alone. -/
structure SparesStore (change : State → State) : Prop where
  store : ∀ s, (change s).store = s.store
  withStore : ∀ s t, change { s with store := t } = { change s with store := t }

/-- A change that leaves the clock alone as well. -/
structure SparesClock (change : State → State) : Prop extends SparesStore change where
  clock : ∀ s, (change s).clock = s.clock
  withClock : ∀ s c, change { s with clock := c } = { change s with clock := c }

namespace CarriesOver

variable {change : State → State} {α β : Type}

theorem pure (a : α) : CarriesOver change (pure a) := fun _ => ⟨rfl, rfl⟩

theorem throw (h : Halt) : CarriesOver change (throw h : Run α) := fun _ => ⟨rfl, rfl⟩

theorem bind {m : Run α} {f : α → Run β} (hm : CarriesOver change m)
    (hf : ∀ a, CarriesOver change (f a)) : CarriesOver change (m >>= f) := by
  intro s
  obtain ⟨houtcome, hfinal⟩ := hm s
  cases h : m.outcome s with
  | ok a =>
    rw [h] at houtcome
    rw [outcome_bind_of_ok h, outcome_bind_of_ok houtcome, final_bind_of_ok h,
      final_bind_of_ok houtcome, hfinal]
    exact hf a (m.final s)
  | error e =>
    rw [h] at houtcome
    rw [outcome_bind_of_error h, outcome_bind_of_error houtcome, final_bind_of_error h,
      final_bind_of_error houtcome]
    exact ⟨rfl, hfinal⟩

theorem attempt {m : Run α} (hm : CarriesOver change m) : CarriesOver change m.attempt := by
  intro s
  rw [outcome_attempt, outcome_attempt, final_attempt, final_attempt, (hm s).1]
  exact ⟨rfl, (hm s).2⟩

end CarriesOver

namespace SparesStore

variable {change : State → State} (hchange : SparesStore change)
include hchange

theorem query {α : Type} (q : Store → Except Halt α) : CarriesOver change (query q) := by
  intro s
  rw [outcome_query, outcome_query, final_query, final_query, hchange.store]
  exact ⟨rfl, rfl⟩

theorem rebind (op : Store → Except Halt Store) (v : Value) :
    CarriesOver change (rebind op v) := by
  intro s
  rw [outcome_rebind, outcome_rebind, final_rebind, final_rebind, hchange.store]
  refine ⟨rfl, ?_⟩
  cases op s.store with
  | ok t => exact (hchange.withStore s t).symm
  | error h => rfl

theorem assign (f : FrameId) (x : String) (v : Value) : CarriesOver change (assign f x v) :=
  hchange.rebind (fun s => s.assign f x v) v

theorem declare (f : FrameId) (x : String) (v : Value) (constant : Bool) :
    CarriesOver change (declare f x v constant) :=
  hchange.rebind (fun s => s.declare f x v constant) v

theorem newFrame (parent : Option FrameId) : CarriesOver change (newFrame parent) := by
  intro s
  rw [outcome_newFrame, outcome_newFrame, final_newFrame, final_newFrame, hchange.store]
  exact ⟨rfl, (hchange.withStore s _).symm⟩

theorem newClosure : CarriesOver change newClosure := by
  intro s
  rw [outcome_newClosure, outcome_newClosure, final_newClosure, final_newClosure, hchange.store]
  exact ⟨rfl, (hchange.withStore s _).symm⟩

end SparesStore

namespace SparesClock

variable {change : State → State} (hchange : SparesClock change)
include hchange

/-- The clock shows the same, and is read as often. -/
theorem readClock : CarriesOver change readClock := by
  intro s
  rw [outcome_readClock, outcome_readClock, final_readClock, final_readClock, hchange.clock]
  exact ⟨rfl, (hchange.withClock s _).symm⟩

theorem ofOperations (hemit : ∀ e, CarriesOver change (emit e))
    (hwrite : ∀ text, CarriesOver change (write text)) : OfOperations (CarriesOver change) where
  pure := .pure
  throw := .throw
  bind := .bind
  attempt := .attempt
  query := hchange.query
  assign := hchange.assign
  declare := hchange.declare
  newFrame := hchange.newFrame
  newClosure := hchange.newClosure
  emit := hemit
  write := hwrite
  readClock := hchange.readClock

/-- Evaluations carry over a change that printing and noting events carry over. -/
theorem composed (hemit : ∀ e, CarriesOver change (emit e))
    (hwrite : ∀ text, CarriesOver change (write text)) {host : Host} {own : FrameId → Prop}
    {α : Type} {m : Run α} (hm : Composed host own m) : CarriesOver change m :=
  (hchange.ofOperations hemit hwrite).composed hm

end SparesClock

end ScopeScript.Run
