import Mathlib
import ScopeScript.Proofs.Run.Contract
import ScopeScript.Proofs.Run.Names

/-!
# The events of a run and the store

An event is noted before what it announces is done: a declaration, which is one binding, or the call
of a function, which is a frame with a binding for each argument.  What is announced may still fail,
and then the run halts.  So with builtin natives the events of a run tell how many frames and, if it
succeeds, how many bindings there are afterwards that were not there before
(`Program.events_account_for_store`).
-/

namespace ScopeScript

/-! ## What is counted -/

namespace Event

/-- The number of bindings that the event announces. -/
def bindings : Event → Nat
  | .scanned _ | .parsed _ | .callingNative _ _ => 0
  | .declaringVariable _ _ | .declaringFunction _ _ => 1
  | .callingFunction _ args => args

/-- Whether the event announces the call of a function, and with it a frame. -/
def callsFunction : Event → Bool
  | .callingFunction _ _ => true
  | _ => false

/-- The number of bindings that the events announce. -/
def announced (log : List Event) : Nat := (log.map bindings).sum

theorem announced_append (log rest : List Event) :
    announced (log ++ rest) = announced log + announced rest := by
  simp [announced]

end Event

namespace Store

variable {s t : Store} {f : FrameId} {old : Frame} {x : String} {v : Value}

/-- The number of bindings in all frames. -/
def bindingCount (s : Store) : Nat := (s.frames.toList.map fun frame => frame.bindings.length).sum

theorem bindingCount_newFrame (s : Store) (parent : Option FrameId) :
    (s.newFrame parent).2.bindingCount = s.bindingCount := by
  simp [bindingCount, newFrame, Frame.empty]

theorem bindingCount_put (hold : s.frames[f]? = some old) (new : Frame) :
    (s.put f new).bindingCount + old.bindings.length = s.bindingCount + new.bindings.length := by
  obtain ⟨hf, rfl⟩ := Array.getElem?_eq_some_iff.1 hold
  have hlist : f < s.frames.toList.length := hf
  have hsplit : s.frames.toList =
      s.frames.toList.take f ++ s.frames[f] :: s.frames.toList.drop (f + 1) := by
    have hrest : s.frames[f] :: s.frames.toList.drop (f + 1) = s.frames.toList.drop f :=
      List.getElem_cons_drop hlist
    rw [hrest, List.take_append_drop]
  have hput : (s.put f new).frames.toList =
      s.frames.toList.take f ++ new :: s.frames.toList.drop (f + 1) := by
    rw [put, Array.toList_setIfInBounds, List.set_eq_take_append_cons_drop, if_pos hlist]
  have hbefore := congrArg (fun frames : List Frame => (frames.map (·.bindings.length)).sum) hsplit
  rw [bindingCount, bindingCount, hput]
  simp only [List.map_append, List.map_cons, List.sum_append, List.sum_cons] at hbefore ⊢
  omega

theorem bindingCount_assign (h : s.assign f x v = .ok t) : t.bindingCount = s.bindingCount := by
  obtain ⟨owner, frame, -, hframe, -, rfl⟩ := exists_of_assign h
  have hput := bindingCount_put hframe (frame.set x v)
  have hlength : (frame.set x v).bindings.length = frame.bindings.length := by simp [Frame.set]
  omega

theorem bindingCount_declare {constant : Bool} (h : s.declare f x v constant = .ok t) :
    t.bindingCount = s.bindingCount + 1 := by
  obtain ⟨frame, hframe, -, rfl⟩ := exists_of_declare h
  have hput := bindingCount_put hframe (frame.add ⟨x, v, constant⟩)
  have hlength : (frame.add ⟨x, v, constant⟩).bindings.length = frame.bindings.length + 1 := rfl
  omega

end Store

namespace Run

/-! ## Changes -/

/-- From the state the computation notes the events and makes so many frames, and so many bindings
if it succeeds.  If it halts there may be fewer of these. -/
structure Makes (log : List Event) (frames bindings : Nat) {α : Type} (m : Run α) (s : State) :
    Prop where
  events : (m.final s).events.toList = s.events.toList ++ log
  frames : (m.final s).store.frames.size = s.store.frames.size + frames
  kept : s.store.bindingCount ≤ (m.final s).store.bindingCount
  bound : (m.final s).store.bindingCount ≤ s.store.bindingCount + bindings
  whole : ∀ a, m.outcome s = .ok a →
    (m.final s).store.bindingCount = s.store.bindingCount + bindings

namespace Makes

variable {α β : Type} {log rest : List Event} {n n' k k' : Nat} {m : Run α} {f : α → Run β}
  {s : State}

theorem bind_ok {a : α} (hm : Makes log n k m s) (ha : m.outcome s = .ok a)
    (hf : Makes rest n' k' (f a) (m.final s)) :
    Makes (log ++ rest) (n + n') (k + k') (m >>= f) s := by
  have hfirst := hm.whole a ha
  have hkept := hf.kept
  have hbound := hf.bound
  constructor
  · rw [final_bind_of_ok ha, hf.events, hm.events, List.append_assoc]
  · rw [final_bind_of_ok ha, hf.frames, hm.frames, Nat.add_assoc]
  · rw [final_bind_of_ok ha]
    omega
  · rw [final_bind_of_ok ha]
    omega
  · intro b hb
    rw [outcome_bind_of_ok ha] at hb
    rw [final_bind_of_ok ha, hf.whole b hb, hfirst, Nat.add_assoc]

theorem bind_error {e : Halt} (hm : Makes log n k m s) (he : m.outcome s = .error e)
    (hk : k ≤ k') : Makes log n k' (m >>= f) s := by
  have hbound := hm.bound
  constructor
  · rw [final_bind_of_error he, hm.events]
  · rw [final_bind_of_error he, hm.frames]
  · rw [final_bind_of_error he]
    exact hm.kept
  · rw [final_bind_of_error he]
    omega
  · intro b hb
    rw [outcome_bind_of_error he] at hb
    cases hb

/-- What follows notes no event and makes no frame. -/
theorem andThen (hm : Makes log n k m s)
    (hf : ∀ a, m.outcome s = .ok a → Makes [] 0 k' (f a) (m.final s)) :
    Makes log n (k + k') (m >>= f) s := by
  cases h : m.outcome s with
  | ok a => simpa using hm.bind_ok h (hf a h)
  | error e => exact hm.bind_error h (Nat.le_add_right k k')

theorem nothing (hevents : (m.final s).events = s.events) (hstore : (m.final s).store = s.store) :
    Makes [] 0 0 m s where
  events := by rw [hevents, List.append_nil]
  frames := by rw [hstore, Nat.add_zero]
  kept := Nat.le_of_eq (congrArg _ hstore.symm)
  bound := Nat.le_of_eq (congrArg _ hstore)
  whole _ _ := by rw [hstore, Nat.add_zero]

theorem emit (e : Event) (s : State) : Makes [e] 0 0 (emit e) s where
  events := by rw [final_emit, Array.toList_push]
  frames := rfl
  kept := Nat.le_refl _
  bound := Nat.le_refl _
  whole _ _ := rfl

theorem newFrame (parent : Option FrameId) (s : State) : Makes [] 1 0 (newFrame parent) s where
  events := (List.append_nil _).symm
  frames := Store.size_newFrame s.store parent
  kept := Nat.le_of_eq (Store.bindingCount_newFrame s.store parent).symm
  bound := Nat.le_of_eq (Store.bindingCount_newFrame s.store parent)
  whole _ _ := Store.bindingCount_newFrame s.store parent

theorem rebind {op : Store → Except Halt Store} {v : Value} {s : State}
    (hop : ∀ t, op s.store = .ok t →
      t.frames.size = s.store.frames.size ∧ t.bindingCount = s.store.bindingCount + k) :
    Makes [] 0 k (rebind op v) s := by
  cases h : op s.store with
  | ok t =>
    obtain ⟨hframes, hbindings⟩ := hop t h
    have hfinal : (Run.rebind op v).final s = { s with store := t } := by rw [final_rebind, h]
    constructor
    · rw [hfinal, List.append_nil]
    · rw [hfinal]
      exact hframes
    · rw [hfinal]
      exact Nat.le_trans (Nat.le_add_right _ k) (Nat.le_of_eq hbindings.symm)
    · rw [hfinal]
      exact Nat.le_of_eq hbindings
    · rw [hfinal]
      exact fun _ _ => hbindings
  | error e =>
    have hfinal : (Run.rebind op v).final s = s := by rw [final_rebind, h]
    constructor
    · rw [hfinal, List.append_nil]
    · rw [hfinal, Nat.add_zero]
    · exact Nat.le_of_eq (by rw [hfinal])
    · rw [hfinal]
      exact Nat.le_add_right _ k
    · intro a ha
      rw [outcome_rebind, h] at ha
      cases ha

theorem assign (g : FrameId) (x : String) (v : Value) (s : State) :
    Makes [] 0 0 (assign g x v) s := by
  rw [assign_eq_rebind]
  exact .rebind fun t ht => ⟨Store.size_assign ht, Store.bindingCount_assign ht⟩

theorem declare (g : FrameId) (x : String) (v : Value) (constant : Bool) (s : State) :
    Makes [] 0 1 (declare g x v constant) s := by
  rw [declare_eq_rebind]
  exact .rebind fun t ht => ⟨Store.size_declare ht, Store.bindingCount_declare ht⟩

/-- Each parameter is one binding. -/
theorem bindAll (g : FrameId) (params : List (String × Value)) (s : State) :
    Makes [] 0 params.length (Run.bind g params) s := by
  induction params generalizing s with
  | nil => exact .nothing rfl rfl
  | cons param rest ih =>
    rw [List.length_cons, Nat.add_comm]
    exact (declare g param.1 param.2 false s).andThen fun _ _ => ih _

/-- The frame of a call is made whenever the call is noted. -/
theorem openScope {c : Closure} {args : List Value} (hlength : args.length = c.params.length)
    (s : State) :
    Makes [.callingFunction c.name args.length] 1 args.length (openScope c args) s := by
  have hzip : (c.params.zip args).length = args.length := by
    rw [List.length_zip, hlength, Nat.min_self]
  have hbind (g : FrameId) (t : State) :
      Makes [] 0 args.length (Run.bind g (c.params.zip args) >>= fun _ => pure g) t := by
    have hparams := bindAll g (c.params.zip args) t
    rw [hzip] at hparams
    exact hparams.andThen fun _ _ => .nothing rfl rfl
  let make : Run FrameId := Run.newFrame (some c.frame) >>= fun g =>
    Run.bind g (c.params.zip args) >>= fun _ => pure g
  have hmake (t : State) : Makes [] 1 args.length make t := by
    rw [← Nat.zero_add args.length]
    exact (newFrame (some c.frame) t).andThen fun g _ => hbind g _
  have hscope := (emit (.callingFunction c.name args.length) s).bind_ok (f := fun _ => make) rfl
    (hmake _)
  rw [Nat.zero_add, Nat.zero_add] at hscope
  exact hscope

/-- Builtin natives make nothing and note nothing. -/
theorem builtin (n : Native) (args : List Value) (g : FrameId) (s : State) :
    Makes [] 0 0 ((Builtin.host.action n args).perform g) s := by
  obtain ⟨sink, clock, h⟩ := exists_final_builtin n args g s
  refine .nothing ?_ ?_
  · rw [h]
  · rw [h]

end Makes

/-! ## Accounts -/

/-- The events that the computation notes account for what it makes, wherever it starts. -/
def Accounts {α : Type} (m : Run α) : Prop :=
  ∀ s, ∃ log, Makes log (log.countP Event.callsFunction) (Event.announced log) m s

namespace Accounts

variable {α β : Type}

theorem of_makes_nothing {m : Run α} (h : ∀ s, Makes [] 0 0 m s) : Accounts m :=
  fun s => ⟨[], h s⟩

theorem bind {m : Run α} {f : α → Run β} (hm : Accounts m) (hf : ∀ a, Accounts (f a)) :
    Accounts (m >>= f) := by
  intro s
  obtain ⟨log, hlog⟩ := hm s
  cases h : m.outcome s with
  | ok a =>
    obtain ⟨rest, hrest⟩ := hf a (m.final s)
    refine ⟨log ++ rest, ?_⟩
    rw [List.countP_append, Event.announced_append]
    exact hlog.bind_ok h hrest
  | error e => exact ⟨log, hlog.bind_error h (Nat.le_refl _)⟩

/-- A declaration is noted, then made. -/
theorem emit_declare {e : Event} (hcalls : e.callsFunction = false) (hbindings : e.bindings = 1)
    (g : FrameId) (x : String) (v : Value) (constant : Bool) :
    Accounts (emit e >>= fun _ => declare g x v constant) := by
  intro s
  refine ⟨[e], ?_⟩
  have hmakes := (Makes.emit e s).bind_ok (f := fun _ => declare g x v constant) rfl
    (.declare g x v constant _)
  simpa [Event.announced, hcalls, hbindings] using hmakes

/-- Calls by `call` account for what they make. -/
def Calls (call : Caller) : Prop := ∀ v args frame, Accounts (call v args frame)

theorem ofStatements {call : Caller} (hcall : Calls call) (frame : FrameId) :
    OfStatements Accounts call frame where
  pure a := of_makes_nothing fun _ => .nothing rfl rfl
  throw h := of_makes_nothing fun _ => .nothing rfl rfl
  bind := bind
  lookup x := of_makes_nothing fun s => by
    rw [lookup_eq_query]
    exact .nothing (by rw [final_query]) (by rw [final_query])
  assign x v := of_makes_nothing (.assign frame x v)
  call v args := hcall v args frame
  declare name v constant := emit_declare rfl rfl frame name v constant
  define name params body := by
    have hclosure : Accounts newClosure := of_makes_nothing fun s =>
      ⟨(List.append_nil _).symm, rfl, Nat.le_refl _, Nat.le_refl _, fun _ _ => rfl⟩
    exact hclosure.bind fun identity => emit_declare rfl rfl frame name _ true

theorem enter {call : Caller} (hcall : Calls call) (c : Closure) (args : List Value) :
    Accounts (enter call c args) := by
  by_cases hlength : args.length = c.params.length
  · rw [enter_eq call hlength]
    have hopen : Accounts (openScope c args) := by
      intro s
      refine ⟨[.callingFunction c.name args.length], ?_⟩
      simpa [Event.announced, Event.callsFunction, Event.bindings] using Makes.openScope hlength s
    exact hopen.bind fun scope => (ofStatements hcall scope).runAll c.body .null
  · rw [Run.enter, if_neg hlength]
    exact of_makes_nothing fun _ => .nothing rfl rfl

theorem calls (depth : Nat) : Calls (Run.call Builtin.host depth) := by
  induction depth with
  | zero => exact fun _ _ _ => of_makes_nothing fun _ => .nothing rfl rfl
  | succ depth ih =>
    intro v args frame
    cases v with
    | native n =>
      have hemit : Accounts (emit (.callingNative n.name args.length)) := fun s =>
        ⟨[.callingNative n.name args.length], .emit _ s⟩
      exact hemit.bind fun _ => of_makes_nothing (.builtin n args frame)
    | function c => exact enter ih c args
    | null | number | bool | object => exact of_makes_nothing fun _ => .nothing rfl rfl

end Accounts

end Run

/-- With builtin natives, wherever and from whatever state a program is run, the events that are
noted account for what is made: there are as many new frames as calls of functions, and as many new
bindings, if the program succeeds, as declarations of variables and functions and arguments of such
calls.  If it halts there are at most as many. -/
theorem Program.events_account_for_store (depth : Nat) (f : FrameId) (p : Program) (s : State) :
    let t := (p.run Builtin.host depth f).final s
    ∃ log : List Event, t.events.toList = s.events.toList ++ log ∧
      t.store.frames.size = s.store.frames.size + log.countP Event.callsFunction ∧
      (∀ v, (p.run Builtin.host depth f).outcome s = .ok v →
        t.store.bindingCount = s.store.bindingCount + (log.map Event.bindings).sum) ∧
      s.store.bindingCount ≤ t.store.bindingCount ∧
      t.store.bindingCount ≤ s.store.bindingCount + (log.map Event.bindings).sum := by
  intro t
  have haccounts : Run.Accounts (p.run Builtin.host depth f) :=
    (Run.Accounts.ofStatements (.calls depth) f).runAll p.body .null
  obtain ⟨log, hlog⟩ := haccounts s
  exact ⟨log, hlog.events, hlog.frames, hlog.whole, hlog.kept, hlog.bound⟩

/-- A call of a function with a repeated parameter: of the two bindings that it announces, one is
made before the run halts. -/
theorem Program.events_account_for_store_repeated :
    let p : Program :=
      ⟨[.define "f" ["a", "a"] [], .expr (.call (.name "f") [.name "true", .name "false"])]⟩
    let s := State.ofStore Builtin.store none (.still ⟨0⟩)
    let t := (p.run Builtin.host 1 0).final s
    ∃ log, log = [.declaringFunction "f" 2, .callingFunction "f" 2] ∧
      t.events.toList = s.events.toList ++ log ∧
      t.store.frames.size = s.store.frames.size + log.countP Event.callsFunction ∧
      t.store.bindingCount + 1 = s.store.bindingCount + (log.map Event.bindings).sum := by
  intro p s t
  obtain ⟨log, hevents, hframes, -⟩ := events_account_for_store 1 0 p s
  have hlog : log = [.declaringFunction "f" 2, .callingFunction "f" 2] := hevents.symm
  refine ⟨log, hlog, hevents, hframes, ?_⟩
  rw [hlog]
  rfl

end ScopeScript
