import ScopeScript.Proofs.Run.Moment
import ScopeScript.Proofs.Session.Permanence

/-!
# The moments of sessions

The sessions that come about by adding natives, reading texts and running programs, and the values
that are to be seen in them: at every moment of a run those that frames are bound to and those that
are passed in a call, and at its end the result.
-/

namespace ScopeScript.Session

/-- Sessions in which only the given natives were added and only the given programs were run,
however the runs ended and whatever the clock has shown. -/
inductive Reached (natives : (List Value → Action) → Prop) (programs : Program → Prop) :
    Session → Prop
  | new (limit : Option Nat) (clock : Clock) : Reached natives programs (.new limit clock)
  | addNative {s : Session} {act : List Value → Action} (h : Reached natives programs s)
      (name : String) (hact : natives act) : Reached natives programs (s.addNative name act)
  | load {s : Session} (h : Reached natives programs s) (source : String) :
      Reached natives programs (s.load source).2
  | run {s : Session} {p : Program} (h : Reached natives programs s) (depth : Nat)
      (hp : programs p) : Reached natives programs (s.run depth p).2

/-- Evaluating a source text is reading it and running what it is. -/
theorem Reached.eval {natives : (List Value → Action) → Prop} {programs : Program → Prop}
    {s : Session} (h : Reached natives programs s) (depth : Nat) {source : String}
    (hsource : ∀ p, (s.load source).1 = .ok p → programs p) :
    Reached natives programs (s.eval depth source).2 := by
  obtain ⟨-, -, -, heval⟩ | ⟨p, hp, -, heval⟩ := s.eval_cases depth source
  · rw [heval]
    exact h.load source
  · rw [heval]
    rw [← s.outcome_load source] at hp
    exact (h.load source).run depth (hsource p hp)

/-- To add a native is to declare it in the global frame, if its name is not bound there. -/
theorem addNative_cases (s : Session) (name : String) (act : List Value → Action) :
    s.addNative name act = s ∨
    ∃ t, s.state.store.declare globals name (.native (s.host.add name act).1) true = .ok t ∧
      s.addNative name act = ⟨(s.host.add name act).2, { s.state with store := t }⟩ := by
  unfold addNative
  cases hdeclare : s.state.store.declare globals name (.native (s.host.add name act).1) true with
  | ok t =>
    simp only [hdeclare]
    exact .inr ⟨t, rfl, rfl⟩
  | error e =>
    left
    simp only [hdeclare]

/-- The store of a session in which nothing was done yet. -/
def start : Store := (Builtin.store.newFrame (some globals)).2

/-- A run of one of the programs in the session passes through the moment. -/
def Passes (programs : Program → Prop) (s : Session) (m : Moment) : Prop :=
  ∃ (depth : Nat) (p : Program), programs p ∧
    Relation.ReflTransGen (Moment.Next s.host) ⟨depth, top, .body p.body, s.state⟩ m

/-- Values that are to be seen while one of the programs is run in the session, with the store at
that time. -/
inductive Shows (programs : Program → Prop) (s : Session) : Store → Value → Prop
  | bound {m : Moment} (hm : s.Passes programs m) {f : FrameId} {frame : Frame}
      (hframe : m.state.store.frames[f]? = some frame) {b : String × Value}
      (hb : b ∈ frame.bindings) : Shows programs s m.state.store b.2
  | callee {m : Moment} (hm : s.Passes programs m) {v : Value} {args : List Value}
      (hcode : m.code = .call v args) : Shows programs s m.state.store v
  | argument {m : Moment} (hm : s.Passes programs m) {v w : Value} {args : List Value}
      (hcode : m.code = .call v args) (hw : w ∈ args) : Shows programs s m.state.store w
  | result {m : Moment} (hm : s.Passes programs m) {v : Value}
      (h : (m.run s.host).outcome m.state = .ok v) :
      Shows programs s ((m.run s.host).final m.state).store v

variable {C : Contract} {programs : Program → Prop} {s : Session}

/-- After a run the store is one that a contract allows, if the contract is kept and allows the
program. -/
theorem store_run {p : Program} (hC : C.IsKept s.host) (hs : C.store s.state.store)
    (htop : C.frame s.state.store top) (hp : ∀ stmt ∈ p.body, C.stmt s.state.store top stmt)
    (depth : Nat) : C.store (s.run depth p).2.state.store ∧ (s.run depth p).2.host = s.host := by
  have hends : C.Ends C.value (p.run s.host depth top) s.state :=
    hC.runAll (hC.calls depth) hs htop hp (hC.null _)
  rw [state_run, Session.run, perform_eq]
  exact ⟨hends.store, rfl⟩

theorem Reached.keeps_start {natives : (List Value → Action) → Prop}
    (h : s.Reached natives programs) : start.Keeps s.state.store := by
  induction h with
  | new limit clock => exact .refl start
  | @addNative s act _ name _ ih =>
    obtain heq | ⟨t, hdeclare, heq⟩ := s.addNative_cases name act
    · rwa [heq]
    · rw [heq]
      exact ih.trans (Store.keeps_declare hdeclare)
  | load _ source ih => rwa [store_load]
  | @run s p _ depth _ ih => exact ih.trans (Store.keeps_of_steps (s.steps_run depth p))

/-- The contract allows what sessions start with, and the programs that are run, and hosts with the
given natives keep to it. -/
structure Admits (C : Contract) (hosts : Host → Prop) (natives : (List Value → Action) → Prop)
    (programs : Program → Prop) : Prop where
  kept : ∀ host, hosts host → C.IsKept host
  builtin : hosts Builtin.host
  add : ∀ (host : Host) (name : String) (act : List Value → Action), hosts host → natives act →
    hosts (host.add name act).2
  store : C.store start
  inGlobals : C.frame start globals
  inTop : C.frame start top
  native : ∀ n, C.value start (.native n)
  program : ∀ p, programs p → ∀ stmt ∈ p.body, C.stmt start top stmt

namespace Admits

variable {hosts : Host → Prop} {natives : (List Value → Action) → Prop}

theorem reached (hC : Admits C hosts natives programs) (h : s.Reached natives programs) :
    C.store s.state.store ∧ hosts s.host := by
  have hlaws := hC.kept _ hC.builtin
  induction h with
  | new limit clock => exact ⟨hC.store, hC.builtin⟩
  | @addNative s act hs name hact ih =>
    obtain ⟨hstore, hhost⟩ := ih
    obtain heq | ⟨t, hdeclare, heq⟩ := s.addNative_cases name act
    · rw [heq]
      exact ⟨hstore, hhost⟩
    · have hframe := hlaws.frame_mono hs.keeps_start hC.inGlobals
      have hvalue := hlaws.value_mono hs.keeps_start (hC.native (s.host.add name act).1)
      rw [heq]
      exact ⟨(hlaws.declare hstore hframe hvalue name true).1 t hdeclare,
        hC.add _ name act hhost hact⟩
  | load _ source ih => rwa [store_load]
  | @run s p hs depth hp ih =>
    obtain ⟨hstore, hhost⟩ := ih
    have hbody : ∀ stmt ∈ p.body, C.stmt s.state.store Session.top stmt := fun stmt hmem =>
      hlaws.stmt_mono hs.keeps_start (hC.program p hp stmt hmem)
    obtain ⟨hlast, hsame⟩ := store_run (hC.kept _ hhost) hstore
      (hlaws.frame_mono hs.keeps_start hC.inTop) hbody depth
    exact ⟨hlast, hsame ▸ hhost⟩

end Admits

/-- What a contract says of code holds at every moment, if it is kept and allows the programs. -/
theorem Passes.ready {m : Moment} (hm : s.Passes programs m) (hC : C.IsKept s.host)
    (hs : C.store s.state.store) (htop : C.frame s.state.store top)
    (hprograms : ∀ p, programs p → ∀ stmt ∈ p.body, C.stmt s.state.store top stmt) :
    m.Ready C := by
  obtain ⟨depth, p, hp, hinside⟩ := hm
  have hstart : Moment.Ready C ⟨depth, top, .body p.body, s.state⟩ := ⟨hs, htop, hprograms p hp⟩
  exact hstart.inside hC hinside

/-- Each moment is as a contract says that admits the session. -/
theorem Admits.ready {hosts : Host → Prop} {natives : (List Value → Action) → Prop}
    (hC : Admits C hosts natives programs) (h : s.Reached natives programs) {m : Moment}
    (hm : s.Passes programs m) : m.Ready C ∧ C.IsKept s.host := by
  obtain ⟨hstore, hhost⟩ := hC.reached h
  have hkept := hC.kept _ hhost
  refine ⟨hm.ready hkept hstore (hkept.frame_mono h.keeps_start hC.inTop) fun p hp stmt hmem => ?_,
    hkept⟩
  exact hkept.stmt_mono h.keeps_start (hC.program p hp stmt hmem)

/-- What a contract says of values holds of all that are to be seen, if it is kept and allows the
programs and what frames bind names to. -/
theorem Shows.allowed {t : Store} {v : Value} (h : s.Shows programs t v) (hC : C.IsKept s.host)
    (hs : C.store s.state.store) (htop : C.frame s.state.store top)
    (hprograms : ∀ p, programs p → ∀ stmt ∈ p.body, C.stmt s.state.store top stmt)
    (hbound : ∀ {u : Store} {f : FrameId} {frame : Frame}, C.store u → u.frames[f]? = some frame →
      ∀ b ∈ frame.bindings, C.value u b.2) :
    C.store t ∧ C.value t v := by
  have hready {m : Moment} (hm : s.Passes programs m) := hm.ready hC hs htop hprograms
  have hpassed {m : Moment} {v : Value} {args : List Value} (hm : s.Passes programs m)
      (hcode : m.code = .call v args) :
      C.value m.state.store v ∧ ∀ w ∈ args, C.value m.state.store w := by
    have h := (hready hm).allowed
    rwa [Moment.Allowed, hcode] at h
  cases h with
  | bound hm hframe hb => exact ⟨(hready hm).store, hbound (hready hm).store hframe _ hb⟩
  | callee hm hcode => exact ⟨(hready hm).store, (hpassed hm hcode).1⟩
  | argument hm hcode hw => exact ⟨(hready hm).store, (hpassed hm hcode).2 _ hw⟩
  | result hm h =>
    have hends := (hready hm).ends hC
    exact ⟨hends.store, hends.value _ h⟩

end ScopeScript.Session
