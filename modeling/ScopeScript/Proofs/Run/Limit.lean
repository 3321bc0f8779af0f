import Mathlib
import ScopeScript.Proofs.Run.Change

/-!
# Limited output

A run with a limited sink does what it does with an unlimited one as long as the output fits.  If
not all of the output fits, it fails at the text that reaches the limit, and what it has printed up
to there are the first bytes of the whole output.
-/

namespace ScopeScript

/-- The state with another limit of its sink. -/
def State.withLimit (s : State) (limit : Option Nat) : State :=
  { s with sink := { s.sink with limit := limit } }

/-- The state with another clock. -/
def State.withClock (s : State) (clock : Clock) : State := { s with clock := clock }

theorem take_append_add (xs ys : Array UInt8) (n : Nat) :
    (xs ++ ys).take (xs.size + n) = xs ++ ys.take n := by
  simp [Array.extract_eq_self_of_le (Nat.le_add_right xs.size n)]

/-! ## Sinks -/

namespace Sink

variable {s : Sink} {limit : Nat} {bytes : Array UInt8}

theorem exists_write_eq (s : Sink) (bytes : Array UInt8) :
    ∃ fitting, (s.write bytes).2 = { s with written := s.written ++ fitting } := by
  unfold Sink.write
  cases s.limit with
  | none => exact ⟨bytes, rfl⟩
  | some limit => exact ⟨_, rfl⟩

theorem write_of_unlimited (h : s.limit = none) (bytes : Array UInt8) :
    s.write bytes = (true, { s with written := s.written ++ bytes }) := by
  unfold Sink.write
  rw [h]

theorem write_of_fits (hlimit : s.limit = some limit) (h : s.written.size + bytes.size ≤ limit) :
    s.write bytes = (true, { s with written := s.written ++ bytes }) := by
  have hroom : bytes.size ≤ limit - s.written.size := by omega
  unfold Sink.write
  simp [hlimit, hroom, Array.extract_eq_self_of_le hroom]

/-- A text that does not fit fills the sink up to its limit. -/
theorem write_of_not_fits (hlimit : s.limit = some limit) (hsize : s.written.size ≤ limit)
    (h : limit < s.written.size + bytes.size) :
    s.write bytes = (false, { s with written := (s.written ++ bytes).take limit }) := by
  obtain ⟨room, rfl⟩ := Nat.exists_eq_add_of_le hsize
  have hroom : ¬bytes.size ≤ room := by omega
  unfold Sink.write
  simp only [hlimit, Nat.add_sub_cancel_left, hroom, decide_false, take_append_add]

end Sink

namespace Run

variable {α β : Type} {limit : Nat} {s t : State}

/-! ## What a run adds -/

/-- `t` is `s` after more was printed and more events were noted. -/
structure Extends (s t : State) : Prop where
  limit : t.sink.limit = s.sink.limit
  written : ∃ bytes, t.sink.written = s.sink.written ++ bytes
  events : ∃ events, t.events = s.events ++ events

namespace Extends

theorem of_eq (hsink : t.sink = s.sink) (hevents : t.events = s.events) : Extends s t := by
  refine ⟨by rw [hsink], ⟨#[], ?_⟩, #[], ?_⟩
  · rw [hsink, Array.append_empty]
  · rw [hevents, Array.append_empty]

theorem refl (s : State) : Extends s s := of_eq rfl rfl

theorem trans {u : State} (hst : Extends s t) (htu : Extends t u) : Extends s u := by
  obtain ⟨hlimit, ⟨bytes, hbytes⟩, events, hevents⟩ := hst
  obtain ⟨hlimit', ⟨bytes', hbytes'⟩, events', hevents'⟩ := htu
  refine ⟨hlimit'.trans hlimit, ⟨bytes ++ bytes', ?_⟩, events ++ events', ?_⟩
  · rw [hbytes', hbytes, Array.append_assoc]
  · rw [hevents', hevents, Array.append_assoc]

theorem size_le (h : Extends s t) : s.sink.written.size ≤ t.sink.written.size := by
  obtain ⟨bytes, hbytes⟩ := h.written
  rw [hbytes, Array.size_append]
  exact Nat.le_add_right _ _

/-- What fits of the output does not depend on what is printed after it. -/
theorem take_written (h : Extends s t) (hlimit : limit ≤ s.sink.written.size) :
    t.sink.written.take limit = s.sink.written.take limit := by
  obtain ⟨bytes, hbytes⟩ := h.written
  rw [hbytes, Array.take_eq_extract, Array.extract_append, Nat.sub_eq_zero_of_le hlimit,
    Array.extract_zero, Array.append_empty, Array.take_eq_extract]

end Extends

theorem extends_rebind (op : Store → Except Halt Store) (v : Value) :
    Guarantees Extends (rebind op v) := by
  intro s
  rw [final_rebind]
  cases op s.store <;> exact .of_eq rfl rfl

/-- Whatever is run, it only adds to the output and to the events. -/
theorem isGuarantee_extends : IsGuarantee Extends where
  refl := .refl
  trans := .trans
  assign f x v := extends_rebind (fun s => s.assign f x v) v
  declare f x v constant := extends_rebind (fun s => s.declare f x v constant) v
  newFrame _ _ := .of_eq rfl rfl
  newClosure _ := .of_eq rfl rfl
  emit e s := by
    rw [final_emit, Array.push_eq_append]
    exact ⟨rfl, ⟨#[], Array.append_empty.symm⟩, ⟨#[e], rfl⟩⟩
  write text s := by
    obtain ⟨bytes, hbytes⟩ := s.sink.exists_write_eq text.toUTF8.data
    rw [final_write, hbytes]
    exact ⟨rfl, ⟨bytes, rfl⟩, ⟨#[], Array.append_empty.symm⟩⟩
  readClock _ := .of_eq rfl rfl

/-! ## Two runs in step -/

/-- With a limited sink `m` does what it does in `s` if all of the output fits, and otherwise fails
when the limit is reached. -/
structure InStep (limit : Nat) (m : Run α) (s : State) : Prop where
  fits : (m.final s).sink.written.size ≤ limit →
    m.outcome (s.withLimit limit) = m.outcome s ∧
      m.final (s.withLimit limit) = (m.final s).withLimit limit
  fails : limit < (m.final s).sink.written.size →
    m.outcome (s.withLimit limit) = .error (.fault .sinkFull) ∧
      (m.final (s.withLimit limit)).sink.written = (m.final s).sink.written.take limit ∧
      ∃ events, (m.final s).events = (m.final (s.withLimit limit)).events ++ events

namespace InStep

theorem of_carriesOver {m : Run α} (hm : CarriesOver (·.withLimit limit) m)
    (hsink : (m.final s).sink = s.sink) (hsize : s.sink.written.size ≤ limit) :
    InStep limit m s := by
  refine ⟨fun _ => hm s, fun hfails => ?_⟩
  rw [hsink] at hfails
  omega

/-- The second computation is started only if the output of the first one fits. -/
theorem bind {m : Run α} {f : α → Run β} (hm : InStep limit m s)
    (hf : (m.final s).sink.written.size ≤ limit → ∀ a, InStep limit (f a) (m.final s))
    (hextends : ∀ a, Guarantees Extends (f a)) : InStep limit (m >>= f) s := by
  cases ha : m.outcome s with
  | error h =>
    have houtcome := outcome_bind_of_error (f := f) ha
    have hfinal := final_bind_of_error (f := f) ha
    refine ⟨fun hfits => ?_, fun hfails => ?_⟩
    · rw [hfinal] at hfits
      obtain ⟨ho, ht⟩ := hm.fits hfits
      rw [ha] at ho
      rw [outcome_bind_of_error ho, final_bind_of_error ho, houtcome, hfinal]
      exact ⟨rfl, ht⟩
    · rw [hfinal] at hfails
      obtain ⟨ho, ht⟩ := hm.fails hfails
      rw [outcome_bind_of_error ho, final_bind_of_error ho, hfinal]
      exact ⟨rfl, ht⟩
  | ok a =>
    have houtcome := outcome_bind_of_ok (f := f) ha
    have hfinal := final_bind_of_ok (f := f) ha
    have hadds := hextends a (m.final s)
    obtain hfirst | hfirst := Nat.lt_or_ge limit (m.final s).sink.written.size
    · obtain ⟨ho, hwritten, events, hevents⟩ := hm.fails hfirst
      refine ⟨fun hfits => ?_, fun _ => ?_⟩
      · rw [hfinal] at hfits
        exact absurd (Nat.le_trans hadds.size_le hfits) (Nat.not_le.2 hfirst)
      · obtain ⟨later, hlater⟩ := hadds.events
        rw [outcome_bind_of_error ho, final_bind_of_error ho, hfinal,
          hadds.take_written (Nat.le_of_lt hfirst)]
        refine ⟨rfl, hwritten, events ++ later, ?_⟩
        rw [hlater, hevents, Array.append_assoc]
    · obtain ⟨ho, ht⟩ := hm.fits hfirst
      rw [ha] at ho
      have hsecond := hf hfirst a
      refine ⟨fun hfits => ?_, fun hfails => ?_⟩
      · rw [hfinal] at hfits
        rw [outcome_bind_of_ok ho, final_bind_of_ok ho, ht, houtcome, hfinal]
        exact hsecond.fits hfits
      · rw [hfinal] at hfails
        rw [outcome_bind_of_ok ho, final_bind_of_ok ho, ht, hfinal]
        exact hsecond.fails hfails

theorem write (text : String) (hfree : s.sink.limit = none)
    (hsize : s.sink.written.size ≤ limit) : InStep limit (write text) s := by
  have hwrite := Sink.write_of_unlimited hfree text.toUTF8.data
  have hlimit : (s.withLimit limit).sink.limit = some limit := rfl
  have hfinal : (Run.write text).final s =
      { s with sink := { s.sink with written := s.sink.written ++ text.toUTF8.data } } := by
    rw [final_write, hwrite]
  refine ⟨fun hfits => ?_, fun hfails => ?_⟩
  · rw [hfinal, Array.size_append] at hfits
    rw [outcome_write, outcome_write, final_write, hfinal, hwrite,
      Sink.write_of_fits hlimit hfits]
    exact ⟨rfl, rfl⟩
  · rw [hfinal, Array.size_append] at hfails
    rw [outcome_write, final_write, hfinal, Sink.write_of_not_fits hlimit hsize hfails]
    exact ⟨rfl, rfl, #[], Array.append_empty.symm⟩

end InStep

theorem sparesClock_withLimit (limit : Option Nat) : SparesClock (·.withLimit limit) :=
  ⟨⟨fun _ => rfl, fun _ _ => rfl⟩, fun _ => rfl, fun _ _ => rfl⟩

theorem sink_rebind (op : Store → Except Halt Store) (v : Value) (s : State) :
    ((rebind op v).final s).sink = s.sink := by
  rw [final_rebind]
  cases op s.store <;> rfl

/-- Evaluations with builtin natives are in step with those that have a limited sink. -/
theorem Composed.inStep {own : FrameId → Prop} {m : Run α} (hm : Composed Builtin.host own m)
    (hfree : s.sink.limit = none) (hsize : s.sink.written.size ≤ limit) : InStep limit m s := by
  have hspares := sparesClock_withLimit limit
  induction hm generalizing s with
  | pure a => exact .of_carriesOver (.pure a) rfl hsize
  | throw h => exact .of_carriesOver (.throw h) rfl hsize
  | bind hm hf ihm ihf =>
    have hlimit := (isGuarantee_extends.composed hm s).limit
    exact (ihm hfree hsize).bind (fun hfits a => ihf a (hlimit.trans hfree) hfits)
      fun a => isGuarantee_extends.composed (hf a)
  | lookup frame x =>
    rw [lookup_eq_query]
    exact .of_carriesOver (hspares.query _) (by rw [final_query]) hsize
  | assign frame x v =>
    rw [assign_eq_rebind]
    exact .of_carriesOver (hspares.rebind _ v) (sink_rebind _ v s) hsize
  | declare _ x v constant =>
    rw [declare_eq_rebind]
    exact .of_carriesOver (hspares.rebind _ v) (sink_rebind _ v s) hsize
  | newClosure => exact .of_carriesOver hspares.newClosure rfl hsize
  | emit e => exact .of_carriesOver (fun _ => ⟨rfl, rfl⟩) rfl hsize
  | within parent hbody ih =>
    exact (InStep.of_carriesOver (hspares.newFrame parent) rfl hsize).bind
      (fun hfits f => ih f hfree hfits) fun f => isGuarantee_extends.composed (hbody f)
  | native n args frame =>
    obtain ⟨text, h⟩ | ⟨v, -, h⟩ | ⟨f, -, h⟩ | h := perform_builtin_cases n args frame
    · rw [h]
      refine (InStep.write text hfree hsize).bind (fun hfits _ => ?_) fun _ => .refl
      exact .of_carriesOver (.pure _) rfl hfits
    · rw [h]
      exact .of_carriesOver (.pure v) rfl hsize
    · rw [h]
      exact .of_carriesOver (.throw _) rfl hsize
    · rw [h]
      have hread : InStep limit readClock s := .of_carriesOver hspares.readClock rfl hsize
      refine hread.bind (fun hfits now => ?_) fun now => ?_
      · cases now.seconds with
        | ok x => exact .of_carriesOver (.pure _) rfl hfits
        | error f => exact .of_carriesOver (.throw _) rfl hfits
      · cases now.seconds <;> exact .refl

/-! ## Programs -/

/-- Run from `s`, `m` does not use what the clock shows: with another clock it does the same. -/
def IgnoresClock (m : Run α) (s : State) (clock : Clock) : Prop :=
  m.outcome (s.withClock clock) = m.outcome s ∧
    (m.final (s.withClock clock)).withClock s.clock = (m.final s).withClock s.clock

/-- A program with builtin natives prints `output` if the sink is unlimited.  With room for `room`
bytes, and with another clock if it does not use the clock, it ends in the same way, in the same
state but for the limit, if the output fits.  If not, it fails at the sink, having printed the first
`room` bytes of the output and noted the first ones of the events. -/
theorem limited_run (depth : Nat) (f : FrameId) (p : Program) (s : State) (room : Nat)
    (clock : Clock) (hclock : IgnoresClock (p.run Builtin.host depth f) (s.withLimit none) clock) :
    let free := s.withLimit none
    let limited := (s.withLimit (some (s.sink.written.size + room))).withClock clock
    let m := p.run Builtin.host depth f
    ∃ output, (m.final free).sink.written = s.sink.written ++ output ∧
      (output.size ≤ room →
        m.outcome limited = m.outcome free ∧ (m.final limited).store = (m.final free).store ∧
          (m.final limited).sink.written = s.sink.written ++ output ∧
          (m.final limited).events = (m.final free).events) ∧
      (room < output.size →
        m.outcome limited = .error (.fault .sinkFull) ∧
          (m.final limited).sink.written = s.sink.written ++ output.take room ∧
          ∃ events, (m.final free).events = (m.final limited).events ++ events) := by
  intro free limited m
  obtain ⟨houtcome, hfinal⟩ : IgnoresClock m free clock := hclock
  have hm : Composed Builtin.host (f = ·) (p.run Builtin.host depth f) :=
    .program Builtin.host depth rfl p
  obtain ⟨output, houtput⟩ : ∃ output, (m.final free).sink.written = s.sink.written ++ output :=
    (isGuarantee_extends.composed hm free).written
  -- The limited run is compared with an unlimited one that has the same clock.
  have hstep : InStep (s.sink.written.size + room) m (free.withClock clock) :=
    hm.inStep rfl (Nat.le_add_right _ _)
  have hstore : (m.final (free.withClock clock)).store = (m.final free).store :=
    (congrArg State.store hfinal :)
  have hevents : (m.final (free.withClock clock)).events = (m.final free).events :=
    (congrArg State.events hfinal :)
  have hsink : (m.final (free.withClock clock)).sink = (m.final free).sink :=
    (congrArg State.sink hfinal :)
  have hwritten : (m.final (free.withClock clock)).sink.written = s.sink.written ++ output := by
    rw [hsink, houtput]
  refine ⟨output, houtput, fun hfits => ?_, fun hfails => ?_⟩
  · obtain ⟨ho, ht⟩ := hstep.fits (by rw [hwritten, Array.size_append]; omega)
    have hlimited : m.final limited = (m.final (free.withClock clock)).withLimit _ := ht
    refine ⟨ho.trans houtcome, ?_⟩
    rw [hlimited]
    exact ⟨hstore, hwritten, hevents⟩
  · obtain ⟨ho, ht, events, hadded⟩ := hstep.fails (by rw [hwritten, Array.size_append]; omega)
    refine ⟨ho, ht.trans ?_, events, hevents.symm.trans hadded⟩
    rw [hwritten, take_append_add]

/-- With room for seven bytes the second text that is printed does not fit, and nothing is done
after it. -/
theorem limited_run_seven :
    let s := State.ofStore (Builtin.store.newFrame (some 0)).2 none (.still ⟨0⟩)
    let p : Program := ⟨[.expr (.call (.name "print") [.name "true"]),
      .expr (.call (.name "print") [.name "null"]), .declare false "x" none]⟩
    let later := Clock.still ⟨1000000000⟩
    let limited := (s.withLimit (some 7)).withClock later
    IgnoresClock (p.run Builtin.host 1 1) (s.withLimit none) later ∧
      (p.run Builtin.host 1 1).outcome limited = .error (.fault .sinkFull) ∧
      ((p.run Builtin.host 1 1).final limited).sink.written = "true\nnu".toUTF8.data := by
  intro s p later limited
  have hclock : IgnoresClock (p.run Builtin.host 1 1) (s.withLimit none) later := ⟨rfl, rfl⟩
  obtain ⟨output, houtput, -, hfails⟩ := limited_run 1 1 p s 7 later hclock
  have hwhole : ((p.run Builtin.host 1 1).final (s.withLimit none)).sink.written =
      "true\nnull\n".toUTF8.data := by cbv
  obtain rfl : "true\nnull\n".toUTF8.data = output := by
    rw [← hwhole, houtput]
    exact Array.empty_append
  obtain ⟨houtcome, hwritten, -⟩ := hfails (by decide)
  exact ⟨hclock, houtcome, hwritten.trans (by decide)⟩

end Run

end ScopeScript
