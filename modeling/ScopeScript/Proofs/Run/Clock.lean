import ScopeScript.Proofs.Run.Change

/-!
# Readings of the clock

A run does nothing to the clock but read it, and it depends on it only through the moments that it
has read: where two clocks show the same at the readings that are made, the runs are the same.  So
a run can be taken with a clock that shows only the moments known so far, as long as it does not
read further.
-/

namespace ScopeScript

namespace Clock

/-- The clock goes on as it was to go on, after some more readings. -/
structure GoesOn (c d : Clock) : Prop where
  instants : d.instants = c.instants
  readings : c.readings ≤ d.readings

/-- The given moments are those that the clock has shown up to now. -/
def HasShown (c : Clock) (instants : Nat → Instant) : Prop :=
  ∀ i, i < c.readings → instants i = c.instants i

theorem GoesOn.refl (c : Clock) : c.GoesOn c := ⟨rfl, Nat.le_refl _⟩

theorem GoesOn.trans {c d e : Clock} (hcd : c.GoesOn d) (hde : d.GoesOn e) : c.GoesOn e :=
  ⟨hde.instants.trans hcd.instants, Nat.le_trans hcd.readings hde.readings⟩

theorem HasShown.of_goesOn {c d : Clock} {instants : Nat → Instant} (h : d.HasShown instants)
    (hcd : c.GoesOn d) : c.HasShown instants := by
  intro i hi
  rw [h i (Nat.lt_of_lt_of_le hi hcd.readings), hcd.instants]

end Clock

namespace Run

theorem goesOn_rebind (op : Store → Except Halt Store) (v : Value) :
    Guarantees (fun s t => s.clock.GoesOn t.clock) (rebind op v) := by
  intro s
  rw [final_rebind]
  cases op s.store <;> exact .refl s.clock

/-- Whatever is run, it does nothing to the clock but read it. -/
theorem isGuarantee_goesOn : IsGuarantee fun s t => s.clock.GoesOn t.clock where
  refl s := .refl s.clock
  trans := .trans
  assign f x v := goesOn_rebind (fun s => s.assign f x v) v
  declare f x v constant := goesOn_rebind (fun s => s.declare f x v constant) v
  newFrame _ s := .refl s.clock
  newClosure s := .refl s.clock
  emit _ s := .refl s.clock
  write text s := by
    rw [final_write]
    exact .refl s.clock
  readClock s := ⟨rfl, Nat.le_succ _⟩

/-! ## What a run depends on -/

/-- `m` is the same with all moments that the clock has shown when `m` is done. -/
structure OnlyReads (instants : Nat → Instant) {α : Type} (m : Run α) : Prop where
  goesOn : Guarantees (fun s t => s.clock.GoesOn t.clock) m
  same : ∀ s, (m.final s).clock.HasShown instants →
    m.outcome (s.showing instants) = m.outcome s ∧
      m.final (s.showing instants) = (m.final s).showing instants

theorem sparesStore_showing (instants : Nat → Instant) : SparesStore (State.showing instants) :=
  ⟨fun _ => rfl, fun _ _ => rfl⟩

namespace OnlyReads

variable {instants : Nat → Instant} {α β : Type}

theorem of_carriesOver {m : Run α} (hgoes : Guarantees (fun s t => s.clock.GoesOn t.clock) m)
    (hm : CarriesOver (State.showing instants) m) : OnlyReads instants m :=
  ⟨hgoes, fun s _ => hm s⟩

theorem bind {m : Run α} {f : α → Run β} (hm : OnlyReads instants m)
    (hf : ∀ a, OnlyReads instants (f a)) : OnlyReads instants (m >>= f) := by
  refine ⟨isGuarantee_goesOn.bind hm.goesOn fun a => (hf a).goesOn, fun s hshown => ?_⟩
  cases h : m.outcome s with
  | ok a =>
    -- What is shown until both are done includes what is shown until the first one is.
    rw [final_bind_of_ok h] at hshown
    obtain ⟨houtcome, hfinal⟩ := hm.same s (hshown.of_goesOn ((hf a).goesOn _))
    rw [h] at houtcome
    rw [outcome_bind_of_ok h, outcome_bind_of_ok houtcome, final_bind_of_ok h,
      final_bind_of_ok houtcome, hfinal]
    exact (hf a).same (m.final s) hshown
  | error e =>
    rw [final_bind_of_error h] at hshown
    obtain ⟨houtcome, hfinal⟩ := hm.same s hshown
    rw [h] at houtcome
    rw [outcome_bind_of_error h, outcome_bind_of_error houtcome, final_bind_of_error h,
      final_bind_of_error houtcome]
    exact ⟨rfl, hfinal⟩

theorem attempt {m : Run α} (hm : OnlyReads instants m) : OnlyReads instants m.attempt := by
  refine ⟨IsGuarantee.attempt hm.goesOn, fun s hshown => ?_⟩
  rw [final_attempt] at hshown
  obtain ⟨houtcome, hfinal⟩ := hm.same s hshown
  rw [outcome_attempt, outcome_attempt, final_attempt, final_attempt, houtcome]
  exact ⟨rfl, hfinal⟩

/-- The reading is one of those that the clock has shown afterwards. -/
theorem readClock : OnlyReads instants readClock := by
  refine ⟨isGuarantee_goesOn.readClock, fun s hshown => ?_⟩
  have hnow : instants s.clock.readings = s.clock.now := hshown _ (Nat.lt_succ_self _)
  exact ⟨congrArg Except.ok hnow, rfl⟩

theorem write (text : String) : OnlyReads instants (write text) := by
  refine .of_carriesOver (isGuarantee_goesOn.write text) fun s => ?_
  rw [outcome_write, outcome_write, final_write, final_write]
  exact ⟨rfl, rfl⟩

theorem ofOperations (instants : Nat → Instant) : OfOperations (OnlyReads instants) :=
  have hgoes := isGuarantee_goesOn.ofOperations
  have hspares := sparesStore_showing instants
  { pure := fun a => .of_carriesOver (hgoes.pure a) (.pure a)
    throw := fun h => .of_carriesOver (hgoes.throw h) (.throw h)
    bind := bind
    attempt := attempt
    query := fun q => .of_carriesOver (hgoes.query q) (hspares.query q)
    assign := fun f x v => .of_carriesOver (hgoes.assign f x v) (hspares.assign f x v)
    declare := fun f x v constant =>
      .of_carriesOver (hgoes.declare f x v constant) (hspares.declare f x v constant)
    newFrame := fun parent => .of_carriesOver (hgoes.newFrame parent) (hspares.newFrame parent)
    newClosure := .of_carriesOver hgoes.newClosure hspares.newClosure
    emit := fun e => .of_carriesOver (hgoes.emit e) fun _ => ⟨rfl, rfl⟩
    write := write
    readClock := readClock }

end OnlyReads

/-- Evaluations depend on the clock only through what they read, whatever the host is. -/
theorem Composed.onlyReads {host : Host} {own : FrameId → Prop} {α : Type} {m : Run α}
    (hm : Composed host own m) (instants : Nat → Instant) : OnlyReads instants m :=
  (OnlyReads.ofOperations instants).composed hm

/-- A call of the native `clock` makes one reading.  It comes to the seconds since 1970, or halts if
the moment lies before. -/
theorem call_clock (depth : Nat) (frame : FrameId) (s : State) :
    let m := call Builtin.host (depth + 1) (.native ⟨1, "clock"⟩) [] frame
    (s.clock.now.nanoseconds < 0 → m.outcome s = .error (.fault .clockBeforeEpoch)) ∧
      (0 ≤ s.clock.now.nanoseconds →
        ∃ x, s.clock.now.seconds = .ok x ∧ m.outcome s = .ok (.number x)) ∧
      m.final s =
        { s with events := s.events.push (.callingNative "clock" 0), clock := s.clock.tick } := by
  have hcall : call Builtin.host (depth + 1) (.native ⟨1, "clock"⟩) [] frame =
      emit (.callingNative "clock" 0) >>= fun _ => readClock >>= fun now =>
        ofExcept (now.seconds.map .number) := by
    refine bind_congr fun _ => bind_congr fun now => ?_
    exact perform_ofResult frame _
  let t := (emit (.callingNative "clock" 0)).final s
  have hseconds : Run.outcome (call Builtin.host (depth + 1) (.native ⟨1, "clock"⟩) [] frame) s =
      (ofExcept (s.clock.now.seconds.map Value.number)).outcome (readClock.final t) := by
    rw [hcall]
    rfl
  intro m
  refine ⟨fun hnow => ?_, fun hnow => ?_, ?_⟩
  · rw [hseconds, Instant.seconds, if_pos hnow]
    rfl
  · rw [hseconds, Instant.seconds, if_neg (by omega)]
    exact ⟨_, rfl, rfl⟩
  · show (call Builtin.host (depth + 1) (.native ⟨1, "clock"⟩) [] frame).final s = _
    rw [hcall, final_bind_of_ok (a := ()) rfl, final_bind_of_ok rfl, final_ofExcept]
    rfl

/-- The second reading is made later, with a clock that was set back in between. -/
example :
    let now : Expr := .call (.name "clock") []
    let p : Program := ⟨[.expr (.binary .sub now now)]⟩
    let clock : Clock := ⟨fun i => ⟨(7 - i) * 1000000000⟩, 0⟩
    (p.run Builtin.host 1 0).outcome (.ofStore Builtin.store none clock) = .ok (.number 1) :=
  rfl

end Run

end ScopeScript
