import ScopeScript.Proofs.Run.Change
import ScopeScript.Proofs.Session.Permanence
import ScopeScript.Proofs.Syntax.Joining

/-!
# Running a text in parts

Reading a text is noted in the events, and nothing that a run does depends on them.  So a text may
be split at a newline: running the whole of it does what running its parts one after the other does,
but for the events of reading.
-/

namespace ScopeScript

/-- Whether the event is one of reading a source text. -/
def Event.isReading : Event → Bool
  | .scanned _ | .parsed _ => true
  | _ => false

/-- The states are the same but for the events of reading. -/
structure State.Resembles (s t : State) : Prop where
  store : s.store = t.store
  sink : s.sink = t.sink
  clock : s.clock = t.clock
  events : s.events.filter (!·.isReading) = t.events.filter (!·.isReading)

namespace State

variable {s t u : State}

theorem Resembles.refl (s : State) : s.Resembles s := ⟨rfl, rfl, rfl, rfl⟩

theorem Resembles.symm (h : s.Resembles t) : t.Resembles s :=
  ⟨h.store.symm, h.sink.symm, h.clock.symm, h.events.symm⟩

theorem Resembles.trans (hst : s.Resembles t) (htu : t.Resembles u) : s.Resembles u :=
  ⟨hst.store.trans htu.store, hst.sink.trans htu.sink, hst.clock.trans htu.clock,
    hst.events.trans htu.events⟩

/-- The state after the given events, which came before its own. -/
def after (log : Array Event) (s : State) : State := { s with events := log ++ s.events }

theorem Resembles.eq_after (h : s.Resembles t) :
    s = after s.events { s with events := #[] } ∧ t = after t.events { s with events := #[] } := by
  obtain ⟨store, sink, events, clock⟩ := s
  obtain ⟨store', sink', events', clock'⟩ := t
  obtain ⟨rfl, rfl, rfl, -⟩ := h
  simp [after]

theorem resembles_after {log log' : Array Event}
    (h : log.filter (!·.isReading) = log'.filter (!·.isReading)) (s : State) :
    (after log s).Resembles (after log' s) :=
  ⟨rfl, rfl, rfl, by simp [after, h]⟩

end State

namespace Run

/-- No run depends on what was noted before. -/
theorem Composed.carriesOver_after {host : Host} {own : FrameId → Prop} {α : Type} {m : Run α}
    (hm : Composed host own m) (log : Array Event) : CarriesOver (State.after log) m := by
  have hspares : SparesClock (State.after log) :=
    ⟨⟨fun _ => rfl, fun _ _ => rfl⟩, fun _ => rfl, fun _ _ => rfl⟩
  refine hspares.composed (fun e s => ⟨rfl, ?_⟩) (fun text s => ?_) hm
  · simp [final_emit, State.after]
  · rw [outcome_write, outcome_write, final_write, final_write]
    exact ⟨rfl, rfl⟩

theorem Composed.resembles {host : Host} {own : FrameId → Prop} {α : Type} {m : Run α}
    (hm : Composed host own m) {s t : State} (h : s.Resembles t) :
    m.outcome s = m.outcome t ∧ (m.final s).Resembles (m.final t) := by
  obtain ⟨hs, ht⟩ := h.eq_after
  obtain ⟨houtcome, hfinal⟩ := hm.carriesOver_after s.events { s with events := #[] }
  obtain ⟨houtcome', hfinal'⟩ := hm.carriesOver_after t.events { s with events := #[] }
  rw [← hs] at houtcome hfinal
  rw [← ht] at houtcome' hfinal'
  rw [houtcome, houtcome', hfinal, hfinal']
  exact ⟨rfl, State.resembles_after h.events _⟩

/-- Statements in two parts are run one part after the other. -/
theorem runAll_append (call : Caller) (f : FrameId) (last : Value) (first second : List Stmt) :
    Stmt.runAll call f last (first ++ second) =
      Stmt.runAll call f last first >>= fun v => Stmt.runAll call f v second := by
  induction first generalizing last with
  | nil => rfl
  | cons stmt rest ih =>
    simp only [List.cons_append, Stmt.runAll, bind_assoc, ih]

/-- The value before the first statement matters only if there is none. -/
theorem runAll_from (call : Caller) (f : FrameId) (last : Value) (stmts : List Stmt) (s : State) :
    (Stmt.runAll call f last stmts).outcome s =
        (if stmts.isEmpty then .ok last else (Stmt.runAll call f .null stmts).outcome s) ∧
      (Stmt.runAll call f last stmts).final s = (Stmt.runAll call f .null stmts).final s := by
  cases stmts with
  | nil => exact ⟨rfl, rfl⟩
  | cons stmt rest => exact ⟨rfl, rfl⟩

end Run

namespace Session

variable {s t : Session} {source a b : String} {p q : Program}

/-- The sessions are the same but for the events of reading. -/
structure Resembles (s t : Session) : Prop where
  host : s.host = t.host
  state : s.state.Resembles t.state

theorem load_of_ofSource (h : Program.ofSource source = .ok p) (s : Session) :
    (s.load source).1 = .ok p ∧ (s.load source).2.Resembles s := by
  unfold Program.ofSource at h
  unfold load State.load
  cases hts : Token.ofSource source with
  | error e =>
    rw [hts] at h
    cases h
  | ok ts =>
    rw [hts] at h
    have hp : Program.ofTokens ts = .ok p := h
    simp only [hp]
    exact ⟨trivial, rfl, rfl, rfl, rfl, by simp [Event.isReading]⟩

/-- The value of a text is that of its statements. -/
theorem eval_of_ofSource (h : Program.ofSource source = .ok p) (s : Session) (depth : Nat) :
    (s.eval depth source).1 = ((p.run s.host depth top).outcome s.state).mapError .halted ∧
      (s.eval depth source).2.host = s.host ∧
      (s.eval depth source).2.state.Resembles ((p.run s.host depth top).final s.state) := by
  obtain ⟨hload, hresembles⟩ := load_of_ofSource h s
  unfold eval
  generalize s.load source = r at hload hresembles
  obtain ⟨r, t⟩ := r
  obtain rfl : r = .ok p := hload
  have hm : Run.Composed s.host (top = ·) (p.run s.host depth top) :=
    .program s.host depth rfl p
  obtain ⟨houtcome, hfinal⟩ := hm.resembles hresembles.state
  have hhost : t.host = s.host := hresembles.host
  have hrun : t.run depth p = ((p.run s.host depth top).outcome t.state,
      { t with state := (p.run s.host depth top).final t.state }) := by
    rw [run, perform_eq, hhost]
  simp only at houtcome hfinal
  simp only [hrun, houtcome]
  cases (p.run s.host depth top).outcome s.state with
  | ok v => exact ⟨rfl, hhost, hfinal⟩
  | error h => exact ⟨rfl, hhost, hfinal⟩

/-- A text that consists of two programs with a newline between them is a program, and running it
does what running the two one after the other does, but for the events of reading: it halts as the
first or the second one does, and its value is that of the second one, or of the first one if the
second one has no statements.  A parenthesis at the start of the second one must not be a part of an
expression at the end of the first one. -/
theorem eval_join (hp : Program.ofSource a = .ok p) (hq : Program.ofSource b = .ok q)
    (hnext : Grammar.headKind (Token.wordsOf b) ≠ .leftParen ∨
      Grammar.Ends (Token.wordsOf a) p.body) :
    Program.ofSource (a ++ "\n" ++ b) = .ok ⟨p.body ++ q.body⟩ ∧
      ∀ (s : Session) (depth : Nat),
        let joined := s.eval depth (a ++ "\n" ++ b)
        let first := s.eval depth a
        let second := first.2.eval depth b
        (∀ e, first.1 = .error e → joined.1 = .error e ∧ joined.2.Resembles first.2) ∧
          ∀ v, first.1 = .ok v →
            joined.1 = (if q.body.isEmpty then .ok v else second.1) ∧
              joined.2.Resembles second.2 := by
  have hjoined := Program.ofSource_join hp hq hnext
  refine ⟨hjoined, fun s depth => ?_⟩
  intro joined first second
  obtain ⟨houtcome, hhost, hfinal⟩ := eval_of_ofSource hjoined s depth
  obtain ⟨houtcome₁, hhost₁, hfinal₁⟩ := eval_of_ofSource hp s depth
  obtain ⟨houtcome₂, hhost₂, hfinal₂⟩ := eval_of_ofSource hq first.2 depth
  have hsplit : Program.run s.host depth top ⟨p.body ++ q.body⟩ =
      p.run s.host depth top >>= fun v => Stmt.runAll (Run.call s.host depth) top v q.body :=
    Run.runAll_append _ _ _ _ _
  rw [hsplit] at houtcome hfinal
  cases hend : (p.run s.host depth top).outcome s.state with
  | error h =>
    rw [Run.outcome_bind_of_error hend] at houtcome
    rw [Run.final_bind_of_error hend] at hfinal
    rw [hend] at houtcome₁
    refine ⟨fun e he => ?_, fun v hv => ?_⟩
    · exact ⟨houtcome.trans (houtcome₁.symm.trans he), hhost.trans hhost₁.symm,
        hfinal.trans hfinal₁.symm⟩
    · cases houtcome₁.symm.trans hv
  | ok v =>
    obtain ⟨hvalue, hstate⟩ := Run.runAll_from (Run.call s.host depth) top v q.body
      ((p.run s.host depth top).final s.state)
    rw [Run.outcome_bind_of_ok hend, hvalue] at houtcome
    rw [Run.final_bind_of_ok hend, hstate] at hfinal
    rw [hend] at houtcome₁
    refine ⟨fun e he => ?_, fun w hw => ?_⟩
    · cases houtcome₁.symm.trans he
    · obtain rfl : v = w := Except.ok.inj (houtcome₁.symm.trans hw)
      -- The second text is run in a state that resembles the one in which the first part ends.
      have hm : Run.Composed s.host (top = ·) (q.run s.host depth top) :=
        .program s.host depth rfl q
      obtain ⟨hsame, hsameState⟩ := hm.resembles hfinal₁
      rw [hhost₁] at houtcome₂ hfinal₂ hhost₂
      rw [hsame] at houtcome₂
      refine ⟨houtcome.trans ?_, hhost.trans hhost₂.symm,
        hfinal.trans (hfinal₂.trans hsameState).symm⟩
      cases hempty : q.body.isEmpty with
      | true => rfl
      | false => exact houtcome₂.symm

/-- A definition is over at its brace, so that a parenthesis on the next line starts a statement. -/
theorem eval_join_parenthesis :
    let s := new none (.still ⟨0⟩)
    let joined := s.eval 1 "fn f(x) \x7b\x7d\n(f)"
    let parts := (s.eval 1 "fn f(x) \x7b\x7d").2.eval 1 "(f)"
    Program.ofSource "fn f(x) \x7b\x7d\n(f)" =
        .ok ⟨[.define "f" ["x"] [], .expr (.name "f")]⟩ ∧
      joined.1 = parts.1 ∧ joined.2.Resembles parts.2 := by
  have hp : Program.ofSource "fn f(x) \x7b\x7d" = .ok ⟨[.define "f" ["x"] []]⟩ := by cbv
  have hq : Program.ofSource "(f)" = .ok ⟨[.expr (.name "f")]⟩ := by cbv
  obtain ⟨hprogram, hrun⟩ := eval_join hp hq (.inr (.inr (.inr ⟨"f", ["x"], [], rfl⟩)))
  have hfirst : ((new none (.still ⟨0⟩)).eval 1 "fn f(x) \x7b\x7d").1 =
      .ok (.function ⟨0, "f", ["x"], [], 1⟩) := by cbv
  exact ⟨hprogram, (hrun (new none (.still ⟨0⟩)) 1).2 _ hfirst⟩

end Session

end ScopeScript
