import ScopeScript.Proofs.Run.Clock
import ScopeScript.Proofs.Run.Depth
import ScopeScript.Proofs.Run.Limit
import ScopeScript.Proofs.Session.Joining

/-!
# Evaluations

An evaluation gets to its end if calls may be nested deep enough, and then it does not matter how
deep.  It does not matter either what was printed and noted before: of two sessions that agree but
for that, the same comes of a text, and the same is printed.
-/

namespace ScopeScript

/-! ## What came before -/

/-- The sink with an output that came before its own, and with as much room as it has. -/
def Sink.behind (output : Array UInt8) (s : Sink) : Sink :=
  ⟨output ++ s.written, s.limit.map (output.size + ·)⟩

theorem Sink.write_behind (output bytes : Array UInt8) (s : Sink) :
    (s.behind output).write bytes = ((s.write bytes).1, (s.write bytes).2.behind output) := by
  obtain ⟨written, limit⟩ := s
  cases limit with
  | none => simp [Sink.write, behind, Array.append_assoc]
  | some limit =>
    have hroom : output.size + limit - (output.size + written.size) = limit - written.size := by
      omega
    simp [Sink.write, behind, hroom, Array.append_assoc]

/-- The state with an output and events that came before its own. -/
def State.behind (output : Array UInt8) (log : Array Event) (s : State) : State :=
  { s with sink := s.sink.behind output, events := log ++ s.events }

namespace Run

variable (output : Array UInt8) (log : Array Event)

theorem sparesClock_behind : SparesClock (State.behind output log) :=
  ⟨⟨fun _ => rfl, fun _ _ => rfl⟩, fun _ => rfl, fun _ _ => rfl⟩

theorem carriesOver_behind_emit (e : Event) : CarriesOver (State.behind output log) (emit e) := by
  refine fun s => ⟨rfl, ?_⟩
  simp [final_emit, State.behind]

theorem carriesOver_behind_write (text : String) :
    CarriesOver (State.behind output log) (write text) := by
  intro s
  rw [outcome_write, outcome_write, final_write, final_write]
  simp only [State.behind, Sink.write_behind, and_self]

/-- No run depends on what was printed and noted before. -/
theorem Composed.carriesOver_behind {host : Host} {own : FrameId → Prop} {α : Type} {m : Run α}
    (hm : Composed host own m) : CarriesOver (State.behind output log) m :=
  (sparesClock_behind output log).composed (carriesOver_behind_emit output log)
    (carriesOver_behind_write output log) hm

/-- Statements halt at one of them, after those before it. -/
theorem runAll_halted {call : Caller} {frame : FrameId} {last : Value} {stmts : List Stmt}
    {s : State} {h : Halt} (hs : (Stmt.runAll call frame last stmts).outcome s = .error h) :
    ∃ done stmt rest v, stmts = done ++ stmt :: rest ∧
      (Stmt.runAll call frame last done).outcome s = .ok v ∧
      (stmt.run call frame).outcome ((Stmt.runAll call frame last done).final s) = .error h ∧
      (Stmt.runAll call frame last stmts).final s =
        (stmt.run call frame).final ((Stmt.runAll call frame last done).final s) := by
  induction stmts generalizing last s with
  | nil => cases hs
  | cons stmt rest ih =>
    unfold Stmt.runAll at hs
    cases hfirst : (stmt.run call frame).outcome s with
    | error e =>
      rw [outcome_bind_of_error hfirst] at hs
      obtain rfl : e = h := Except.error.inj hs
      exact ⟨[], stmt, rest, last, rfl, rfl, hfirst, final_bind_of_error hfirst⟩
    | ok w =>
      rw [outcome_bind_of_ok hfirst] at hs
      obtain ⟨done, next, after, v, rfl, hdone, hfails, hfinal⟩ := ih hs
      have hfinal' : (Stmt.runAll call frame last (stmt :: done)).final s =
          (Stmt.runAll call frame w done).final ((stmt.run call frame).final s) :=
        final_bind_of_ok hfirst
      refine ⟨stmt :: done, next, after, v, rfl, ?_, ?_, ?_⟩
      · exact (outcome_bind_of_ok hfirst).trans hdone
      · rw [hfinal', hfails]
      · rw [hfinal', ← hfinal]
        exact final_bind_of_ok hfirst

end Run

/-- Reading a text only notes events. -/
theorem Run.IsGuarantee.load {R : State → State → Prop} (hR : Run.IsGuarantee R) (source : String)
    (s : State) : R s (s.load source).2 := by
  unfold State.load
  cases Token.ofSource source with
  | error e => exact hR.refl s
  | ok tokens =>
    have hscanned := hR.emit (.scanned tokens.length) s
    simp only
    cases Program.ofTokens tokens with
    | error e => exact hscanned
    | ok p => exact hR.trans hscanned (hR.emit (.parsed p.body.length) _)

theorem State.resembles_load (source : String) (s : State) : (s.load source).2.Resembles s := by
  unfold load
  cases Token.ofSource source with
  | error e => exact .refl s
  | ok tokens =>
    simp only
    cases Program.ofTokens tokens with
    | error e => exact ⟨rfl, rfl, rfl, by simp [Event.isReading]⟩
    | ok p => exact ⟨rfl, rfl, rfl, by simp [Event.isReading]⟩

theorem State.load_behind (output : Array UInt8) (log : Array Event) (source : String) (s : State) :
    (s.behind output log).load source =
      ((s.load source).1, (s.load source).2.behind output log) := by
  unfold load
  cases Token.ofSource source with
  | error e => rfl
  | ok tokens =>
    simp only
    cases Program.ofTokens tokens <;> simp [behind]

namespace Session

variable {s t : Session} {text : String} {r : Except Failure Value}

/-- The session with an output and events that came before its own. -/
def behind (output : Array UInt8) (log : Array Event) (s : Session) : Session :=
  { s with state := s.state.behind output log }

/-- The session as if nothing had been printed or noted, with an unlimited sink. -/
def afresh (s : Session) : Session := ⟨s.host, .ofStore s.state.store none s.state.clock⟩

/-- The sessions print everything, and agree but for what was printed and noted. -/
structure Agrees (s t : Session) : Prop where
  host : t.host = s.host
  store : t.state.store = s.state.store
  clock : t.state.clock = s.state.clock
  unlimited : s.state.sink.limit = none ∧ t.state.sink.limit = none

theorem Agrees.afresh_eq (h : s.Agrees t) : t.afresh = s.afresh := by
  unfold afresh
  rw [h.host, h.store, h.clock]

theorem behind_afresh (h : s.state.sink.limit = none) :
    s.afresh.behind s.state.sink.written s.state.events = s := by
  obtain ⟨host, store, ⟨written, limit⟩, events, clock⟩ := s
  obtain rfl : limit = none := h
  simp [behind, afresh, State.behind, State.ofStore, Sink.behind]

theorem eval_behind (output : Array UInt8) (log : Array Event) (s : Session) (depth : Nat)
    (text : String) :
    (s.behind output log).eval depth text =
      ((s.eval depth text).1, (s.eval depth text).2.behind output log) := by
  have hload : (s.behind output log).load text =
      ((s.load text).1, (s.load text).2.behind output log) := by
    unfold load
    simp only [behind, State.load_behind]
  have hrun (t : Session) (p : Program) : (t.behind output log).run depth p =
      ((t.run depth p).1, (t.run depth p).2.behind output log) := by
    have hm : Run.Composed t.host (top = ·) (p.run t.host depth top) :=
      .program t.host depth rfl p
    obtain ⟨houtcome, hfinal⟩ := hm.carriesOver_behind output log t.state
    rw [run, run, perform_eq, perform_eq]
    simp only [behind, houtcome, hfinal]
  unfold eval
  rw [hload]
  generalize s.load text = r
  obtain ⟨r, t⟩ := r
  cases r with
  | error e => rfl
  | ok p =>
    simp only [hrun]
    generalize t.run depth p = r
    obtain ⟨r, u⟩ := r
    cases r <;> rfl

/-- What an evaluation with an unlimited sink adds to a session is what it adds to a fresh one. -/
theorem eval_afresh (h : s.state.sink.limit = none) (depth : Nat) (text : String) :
    s.eval depth text = ((s.afresh.eval depth text).1,
      (s.afresh.eval depth text).2.behind s.state.sink.written s.state.events) := by
  rw [← eval_behind, behind_afresh h]

/-! ## What evaluations leave alone -/

theorem host_eval (s : Session) (depth : Nat) (text : String) :
    (s.eval depth text).2.host = s.host := by
  obtain ⟨e, -, -, h⟩ | ⟨p, -, -, h⟩ := s.eval_cases depth text
  · rw [h]
    rfl
  · rw [h, run, perform_eq]
    rfl

/-- What all operations guarantee, an evaluation does. -/
theorem related_eval {R : State → State → Prop} (hR : Run.IsGuarantee R) (s : Session) (depth : Nat)
    (text : String) : R s.state (s.eval depth text).2.state := by
  have hload : R s.state (s.load text).2.state := hR.load text s.state
  obtain ⟨e, -, -, h⟩ | ⟨p, -, -, h⟩ := s.eval_cases depth text
  · rw [h]
    exact hload
  · rw [h, state_run]
    have hm : Run.Composed (s.load text).2.host (top = ·) (p.run _ depth top) :=
      .program _ depth rfl p
    exact hR.trans hload (hR.composed hm _)

/-! ## Evaluations that get to their end -/

/-- Evaluating the text gets to its end in the session: it comes to `r` and leaves `t`. -/
def Evaluates (s : Session) (text : String) (r : Except Failure Value) (t : Session) : Prop :=
  ∃ depth, s.eval depth text = (r, t) ∧ r ≠ .error (.halted .tooDeep)

/-- Nothing changes if calls may be nested deeper than they are. -/
theorem eval_of_le {depth bound : Nat} (h : depth ≤ bound)
    (hdeep : (s.eval depth text).1 ≠ .error (.halted .tooDeep)) :
    s.eval bound text = s.eval depth text := by
  unfold eval at hdeep ⊢
  generalize s.load text = r at hdeep ⊢
  obtain ⟨r, t⟩ := r
  cases r with
  | error e => rfl
  | ok p =>
    have hrun : t.run bound p = t.run depth p := by
      unfold run perform
      rw [Run.Deepens.program t.host h top p t.state fun hhalt => hdeep ?_]
      simp only [run, perform_eq, hhalt]
    simp only [hrun]

theorem Evaluates.exists_depth (h : s.Evaluates text r t) :
    ∃ depth, ∀ bound, depth ≤ bound → s.eval bound text = (r, t) := by
  obtain ⟨depth, heval, hdeep⟩ := h
  refine ⟨depth, fun bound hbound => ?_⟩
  rw [eval_of_le hbound (by rwa [heval]), heval]

namespace Evaluates

theorem host (h : s.Evaluates text r t) : t.host = s.host := by
  obtain ⟨depth, heval, -⟩ := h
  simpa [heval] using s.host_eval depth text

theorem related {R : State → State → Prop} (hR : Run.IsGuarantee R) (h : s.Evaluates text r t) :
    R s.state t.state := by
  obtain ⟨depth, heval, -⟩ := h
  simpa [heval] using related_eval hR s depth text

theorem limit (h : s.Evaluates text r t) : t.state.sink.limit = s.state.sink.limit :=
  (h.related Run.isGuarantee_extends).limit

theorem clock (h : s.Evaluates text r t) : s.state.clock.GoesOn t.state.clock :=
  h.related Run.isGuarantee_goesOn

/-- What is printed comes after what was printed before. -/
theorem written (h : s.Evaluates text r t) :
    ∃ printed, t.state.sink.written = s.state.sink.written ++ printed :=
  (h.related Run.isGuarantee_extends).written

/-- Where the sessions agree, the same comes of a text and the same is printed. -/
theorem of_agrees {s' : Session} (h : s.Evaluates text r t) (hs : s.Agrees s') :
    ∃ t' printed, s'.Evaluates text r t' ∧ t.Agrees t' ∧
      t.state.sink.written = s.state.sink.written ++ printed ∧
      t'.state.sink.written = s'.state.sink.written ++ printed := by
  obtain ⟨depth, heval, hdeep⟩ := h
  rw [eval_afresh hs.unlimited.1, Prod.mk.injEq] at heval
  obtain ⟨hvalue, rfl⟩ := heval
  have hlimit : (s.afresh.eval depth text).2.state.sink.limit = none :=
    (related_eval Run.isGuarantee_extends s.afresh depth text).limit
  -- Either session ends with what a fresh one prints behind what it had printed itself.
  refine ⟨(s.afresh.eval depth text).2.behind s'.state.sink.written s'.state.events,
    (s.afresh.eval depth text).2.state.sink.written, ⟨depth, ?_, hdeep⟩, ?_, rfl, rfl⟩
  · rw [eval_afresh hs.unlimited.2, hs.afresh_eq, hvalue]
  · exact ⟨rfl, rfl, rfl, by simp [behind, State.behind, Sink.behind, hlimit]⟩

/-- A text that is not a program changes no binding and prints nothing. -/
theorem rejected {e : SyntaxError} (h : s.Evaluates text (.error (.rejected e)) t) :
    t.state.store = s.state.store ∧ t.state.sink = s.state.sink := by
  obtain ⟨depth, heval, -⟩ := h
  have hload := s.state.resembles_load text
  obtain ⟨e, -, -, ht⟩ | ⟨p, -, hvalue, -⟩ := s.eval_cases depth text
  · rw [heval] at ht
    obtain rfl : t = (s.load text).2 := ht
    exact ⟨hload.store, hload.sink⟩
  · rw [heval] at hvalue
    generalize ((s.load text).2.run depth p).1 = r at hvalue
    cases r <;> cases hvalue

/-- A program that fails has run the statements before the one that failed, and that one up to its
failure.  What it leaves is what they leave. -/
theorem halted {h : Halt} (heval : s.Evaluates text (.error (.halted h)) t) :
    ∃ depth done stmt rest v, Program.ofSource text = .ok ⟨done ++ stmt :: rest⟩ ∧
      let m := Program.run s.host depth top ⟨done⟩
      let failing := stmt.run (Run.call s.host depth) top
      m.outcome s.state = .ok v ∧ failing.outcome (m.final s.state) = .error h ∧
        t.state.store = (failing.final (m.final s.state)).store ∧
        t.state.sink = (failing.final (m.final s.state)).sink := by
  obtain ⟨depth, heval, -⟩ := heval
  obtain ⟨e, -, hvalue, -⟩ | ⟨p, hp, -, -⟩ := s.eval_cases depth text
  · rw [heval] at hvalue
    cases hvalue
  · obtain ⟨hvalue, -, hstate⟩ := eval_of_ofSource hp s depth
    rw [heval] at hvalue hstate
    have hrun : (p.run s.host depth top).outcome s.state = .error h := by
      generalize (p.run s.host depth top).outcome s.state = r at hvalue
      cases r with
      | ok v => cases hvalue
      | error h' => cases hvalue; rfl
    obtain ⟨done, stmt, rest, v, hbody, hdone, hfails, hfinal⟩ := Run.runAll_halted hrun
    obtain ⟨body⟩ := p
    obtain rfl : body = done ++ stmt :: rest := hbody
    refine ⟨depth, done, stmt, rest, v, hp, hdone, hfails, ?_, ?_⟩
    · exact hstate.store.trans (congrArg State.store hfinal)
    · exact hstate.sink.trans (congrArg State.sink hfinal)

end Evaluates

end Session

end ScopeScript
