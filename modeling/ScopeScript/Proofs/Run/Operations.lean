import ScopeScript.Run.Eval

/-!
# Steps of a run

How a run ends and in which state, and what the single operations on a state come to.
-/

namespace ScopeScript.Run

/-- What a run ends with. -/
def outcome {α : Type} (m : Run α) (s : State) : Except Halt α :=
  match m s with
  | .ok a _ => .ok a
  | .error h _ => .error h

/-- The state that a run ends in. -/
def final {α : Type} (m : Run α) (s : State) : State :=
  match m s with
  | .ok _ s => s
  | .error _ s => s

/-! ## One computation after the other -/

section Sequence

variable {α β : Type} {m : Run α} {f : α → Run β} {s t : State} {a : α} {h : Halt}

theorem bind_apply (m : Run α) (f : α → Run β) (s : State) :
    (m >>= f) s =
      match m.outcome s with
      | .ok a => f a (m.final s)
      | .error h => .error h (m.final s) := by
  unfold outcome final
  show EStateM.bind m f s = _
  unfold EStateM.bind
  cases m s with
  | ok a t => rfl
  | error h t => rfl

theorem bind_of_ok (hm : m s = .ok a t) : (m >>= f) s = f a t := by
  rw [bind_apply, outcome, final, hm]

theorem bind_of_error (hm : m s = .error h t) : (m >>= f) s = .error h t := by
  rw [bind_apply, outcome, final, hm]

theorem outcome_bind_of_ok (hm : m.outcome s = .ok a) :
    (m >>= f).outcome s = (f a).outcome (m.final s) := by
  rw [outcome, bind_apply, hm]
  rfl

theorem final_bind_of_ok (hm : m.outcome s = .ok a) :
    (m >>= f).final s = (f a).final (m.final s) := by
  rw [final, bind_apply, hm]
  rfl

theorem outcome_bind_of_error (hm : m.outcome s = .error h) :
    (m >>= f).outcome s = .error h := by
  rw [outcome, bind_apply, hm]

theorem final_bind_of_error (hm : m.outcome s = .error h) : (m >>= f).final s = m.final s := by
  rw [final, bind_apply, hm]

end Sequence

@[simp] theorem final_pure {α : Type} (a : α) (s : State) : final (pure a) s = s := rfl

theorem final_attempt {α : Type} (m : Run α) (s : State) : m.attempt.final s = m.final s := by
  unfold final attempt
  cases m s with
  | ok a t => rfl
  | error h t => cases h <;> rfl

theorem outcome_attempt {α : Type} (m : Run α) (s : State) :
    m.attempt.outcome s =
      match m.outcome s with
      | .ok a => .ok (.ok a)
      | .error (.fault f) => .ok (.error f)
      | .error h => .error h := by
  unfold outcome attempt
  cases m s with
  | ok a t => rfl
  | error h t => cases h <;> rfl

/-! ## Operations -/

/-- Asking the store for something, as looking a name up does. -/
def query {α : Type} (q : Store → Except Halt α) : Run α := do
  match q (← get).store with
  | .ok a => return a
  | .error h => throw h

theorem query_apply {α : Type} (q : Store → Except Halt α) (s : State) :
    query q s =
      match q s.store with
      | .ok a => .ok a s
      | .error h => .error h s := by
  show (match q s.store with
    | .ok a => (pure a : Run α)
    | .error h => throw h) s = _
  cases q s.store with
  | ok a => rfl
  | error h => rfl

theorem lookup_eq_query (f : FrameId) (x : String) :
    lookup f x = query fun s => s.lookup f x := by
  refine bind_congr fun s => ?_
  dsimp only
  cases s.store.lookup f x <;> rfl

theorem resolve_eq_query (f : FrameId) (x : String) :
    resolve f x = query fun s => s.resolve f x := by
  refine bind_congr fun s => ?_
  dsimp only
  cases s.store.resolve f x <;> rfl

theorem frame_eq_query (f : FrameId) : frame f = query fun s => s.frame f := by
  refine bind_congr fun s => ?_
  dsimp only
  cases s.store.frame f <;> rfl

theorem lookup_apply (f : FrameId) (x : String) (s : State) :
    lookup f x s =
      match s.store.lookup f x with
      | .ok v => .ok v s
      | .error h => .error h s := by
  rw [lookup_eq_query, query_apply]
  cases s.store.lookup f x <;> rfl

/-- Rebinding a name, as assignments and declarations do. -/
def rebind (op : Store → Except Halt Store) (v : Value) : Run Value := do
  match op (← get).store with
  | .ok store => modify fun s => { s with store := store }; return v
  | .error h => throw h

theorem rebind_apply (op : Store → Except Halt Store) (v : Value) (s : State) :
    rebind op v s =
      match op s.store with
      | .ok store => .ok v { s with store := store }
      | .error h => .error h s := by
  show (match op s.store with
    | .ok store =>
      (modify fun (s : State) => { s with store := store } : Run Unit) >>= fun _ => pure v
    | .error h => throw h) s = _
  cases op s.store with
  | ok store => rfl
  | error h => rfl

theorem assign_eq_rebind (f : FrameId) (x : String) (v : Value) :
    assign f x v = rebind (fun s => s.assign f x v) v := rfl

theorem declare_eq_rebind (f : FrameId) (x : String) (v : Value) (constant : Bool) :
    declare f x v constant = rebind (fun s => s.declare f x v constant) v := rfl

theorem write_apply (text : String) (s : State) :
    write text s =
      if (s.sink.write text.toUTF8.data).1 then
        .ok () { s with sink := (s.sink.write text.toUTF8.data).2 }
      else
        .error (.fault .sinkFull) { s with sink := (s.sink.write text.toUTF8.data).2 } := by
  show ((modify fun (s : State) => { s with sink := (s.sink.write text.toUTF8.data).2 } :
    Run Unit) >>= fun _ =>
      if (s.sink.write text.toUTF8.data).1 then pure () else fail .sinkFull) s = _
  cases (s.sink.write text.toUTF8.data).1 with
  | true => rfl
  | false => rfl

theorem perform_ofResult (frame : FrameId) (r : Except Fault Value) :
    (Action.ofResult r).perform frame = ofExcept r := by
  cases r <;> rfl

/-! ## How operations end -/

variable (s : State)

theorem outcome_query {α : Type} (q : Store → Except Halt α) :
    (query q).outcome s = q s.store := by
  rw [outcome, query_apply]
  cases q s.store <;> rfl

theorem final_query {α : Type} (q : Store → Except Halt α) : (query q).final s = s := by
  rw [final, query_apply]
  cases q s.store <;> rfl

theorem outcome_rebind (op : Store → Except Halt Store) (v : Value) :
    (rebind op v).outcome s = (op s.store).map fun _ => v := by
  rw [outcome, rebind_apply]
  cases op s.store <;> rfl

theorem final_rebind (op : Store → Except Halt Store) (v : Value) :
    (rebind op v).final s =
      match op s.store with
      | .ok store => { s with store := store }
      | .error _ => s := by
  rw [final, rebind_apply]
  cases op s.store <;> rfl

theorem outcome_write (text : String) :
    (write text).outcome s =
      if (s.sink.write text.toUTF8.data).1 then .ok () else .error (.fault .sinkFull) := by
  rw [outcome, write_apply]
  cases (s.sink.write text.toUTF8.data).1 <;> rfl

theorem final_write (text : String) :
    (write text).final s = { s with sink := (s.sink.write text.toUTF8.data).2 } := by
  rw [final, write_apply]
  cases (s.sink.write text.toUTF8.data).1 <;> rfl

theorem final_ofExcept {α : Type} (r : Except Fault α) : (ofExcept r).final s = s := by
  cases r <;> rfl

theorem final_emit (e : Event) : (emit e).final s = { s with events := s.events.push e } := rfl

theorem outcome_newFrame (parent : Option FrameId) :
    (newFrame parent).outcome s = .ok s.store.frames.size := rfl

theorem final_newFrame (parent : Option FrameId) :
    (newFrame parent).final s = { s with store := (s.store.newFrame parent).2 } := rfl

theorem outcome_readClock : readClock.outcome s = .ok s.clock.now := rfl

theorem final_readClock : readClock.final s = { s with clock := s.clock.tick } := rfl

theorem outcome_newClosure : newClosure.outcome s = .ok s.store.newClosure.1 := rfl

theorem final_newClosure :
    newClosure.final s = { s with store := s.store.newClosure.2 } := rfl

end ScopeScript.Run
