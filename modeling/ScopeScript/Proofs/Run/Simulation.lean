import ScopeScript.Proofs.Run.Operations
import ScopeScript.Proofs.Value.Renaming

/-!
# Two runs side by side

A coupling says which states of two runs belong together, and how the frames and functions of the
first run are numbered in the second.  Two computations match if from states that belong together
they come to states that belong together, with corresponding results or with the same halt.

When the operations on frames, the events and the natives match (`Coupling.IsSimulation`), so do
expressions, statements, calls and programs.
-/

namespace ScopeScript

/-- The name that a statement declares in its own frame. -/
def Stmt.declaredName? : Stmt → Option String
  | .declare _ name _ => some name
  | .define name _ _ => some name
  | .expr _ => none

/-- The names that statements declare in their own frame. -/
def declaredNames (stmts : List Stmt) : List String := stmts.filterMap Stmt.declaredName?

/-- Which states of two runs belong together. -/
structure Coupling where
  /-- The numbers that the frames and functions of the first run have in the second. -/
  numbers : Renaming
  /-- The states belong together. -/
  Rel : State → State → Prop
  /-- The first run may meet the frame when so many frames were made. -/
  Seen : Nat → FrameId → Prop
  /-- The first run may declare the name in the frame. -/
  MayDeclare : FrameId → String → Prop

namespace Coupling

section Generic

variable (C : Coupling)

/-- Values that correspond when the first run has made `n` frames. -/
def Values (n : Nat) (v w : Value) : Prop :=
  w = v.rename C.numbers ∧ ∀ c ∈ v.closures, C.Seen n c.frame

/-- Lists of values that correspond one by one. -/
def ValueLists (n : Nat) (vs ws : List Value) : Prop :=
  ws = vs.map (Value.rename C.numbers) ∧ ∀ v ∈ vs, ∀ c ∈ v.closures, C.Seen n c.frame

/-- Entries of corresponding objects. -/
def Entries (n : Nat) (fields others : Fields) : Prop :=
  others = Fields.rename C.numbers fields ∧ ∀ c ∈ Fields.closures fields, C.Seen n c.frame

/-- Frames that correspond and in which any name may be declared. -/
def Scopes (n : Nat) (f g : FrameId) : Prop :=
  g = C.numbers.frame f ∧ C.Seen n f ∧ ∀ x, C.MayDeclare f x

/-- Ends of two runs that belong together, with results related by `Q`.  Neither run asked for a
frame that was not made. -/
inductive Ends {α β : Type} (n : Nat) (Q : Nat → α → β → Prop) :
    EStateM.Result Halt State α → EStateM.Result Halt State β → Prop
  | ok {a : α} {b : β} {s t : State} (hrel : C.Rel s t) (hn : n ≤ s.store.frames.size)
    (hQ : Q s.store.frames.size a b) : Ends n Q (.ok a s) (.ok b t)
  | error {h : Halt} {s t : State} (hrel : C.Rel s t) (hn : n ≤ s.store.frames.size)
    (hhalt : ∀ f, h ≠ .missingFrame f) : Ends n Q (.error h s) (.error h t)

/-- Computations that come from states that belong together, with at least `n` frames made, to such
states. -/
def Matches {α β : Type} (n : Nat) (Q : Nat → α → β → Prop) (m : Run α) (m' : Run β) : Prop :=
  ∀ s t, C.Rel s t → n ≤ s.store.frames.size → C.Ends n Q (m s) (m' t)

/-- Calls of corresponding values with corresponding arguments match, wherever they are made. -/
def Calls (call : Caller) : Prop :=
  ∀ n f f' args args' frame frame', C.Values n f f' → C.ValueLists n args args' →
    C.Matches n C.Values (call f args frame) (call f' args' frame')

end Generic

variable {C : Coupling} {α β γ δ : Type} {n : Nat}

/-! ## Rules -/

theorem Matches.pure {Q : Nat → α → β → Prop} {a : α} {b : β} (h : ∀ k, n ≤ k → Q k a b) :
    C.Matches n Q (pure a) (pure b) :=
  fun _ _ hrel hn => .ok hrel hn (h _ hn)

theorem Matches.bind {Q : Nat → α → β → Prop} {Q' : Nat → γ → δ → Prop} {m : Run α} {m' : Run β}
    {f : α → Run γ} {f' : β → Run δ} (hm : C.Matches n Q m m')
    (hf : ∀ k a b, n ≤ k → Q k a b → C.Matches k Q' (f a) (f' b)) :
    C.Matches n Q' (m >>= f) (m' >>= f') := by
  intro s t hrel hn
  have hends := hm s t hrel hn
  simp only [Bind.bind, EStateM.bind]
  generalize m s = r, m' t = r' at hends
  cases hends with
  | error hrel hn hhalt => exact .error hrel hn hhalt
  | @ok a b s t hrel hn hQ =>
    have hrest := hf _ a b hn hQ s t hrel (Nat.le_refl _)
    simp only
    generalize f a s = r, f' b t = r' at hrest
    cases hrest with
    | error hrel hk hhalt => exact .error hrel (Nat.le_trans hn hk) hhalt
    | ok hrel hk hQ' => exact .ok hrel (Nat.le_trans hn hk) hQ'

theorem Matches.throw {Q : Nat → α → β → Prop} {h : Halt} (hhalt : ∀ f, h ≠ .missingFrame f) :
    C.Matches n Q (throw h) (throw h) :=
  fun _ _ hrel hn => .error hrel hn hhalt

theorem Matches.fail {Q : Nat → α → β → Prop} (e : Fault) :
    C.Matches n Q (Run.fail e) (Run.fail e) := by
  refine Matches.throw fun f hf => ?_
  cases hf

theorem Matches.attempt {Q : Nat → α → β → Prop} {m : Run α} {m' : Run β}
    (hm : C.Matches n Q m m') :
    C.Matches n (fun k r r' => (∃ a b, r = .ok a ∧ r' = .ok b ∧ Q k a b) ∨
      ∃ e, r = .error e ∧ r' = .error e) m.attempt m'.attempt := by
  intro s t hrel hn
  have hends := hm s t hrel hn
  simp only [Run.attempt]
  generalize m s = r, m' t = r' at hends
  cases hends with
  | ok hrel hn hQ => exact .ok hrel hn (.inl ⟨_, _, rfl, rfl, hQ⟩)
  | @error h s t hrel hn hhalt =>
    -- A fault becomes a result, so the states have to belong together after it as well.
    cases h with
    | fault e => exact .ok hrel hn (.inr ⟨e, rfl, rfl⟩)
    | missingFrame f => exact absurd rfl (hhalt f)
    | tooDeep => exact .error hrel hn hhalt

/-- The ends of two computations that match. -/
theorem Matches.outcome {m m' : Run Value} {s t : State} (h : C.Matches n C.Values m m')
    (hrel : C.Rel s t) (hn : n ≤ s.store.frames.size) :
    m'.outcome t = (m.outcome s).map (Value.rename C.numbers) ∧
      (∀ f, m.outcome s ≠ .error (.missingFrame f)) ∧ C.Rel (m.final s) (m'.final t) ∧
      ∀ v, m.outcome s = .ok v →
        ∀ c ∈ v.closures, C.Seen (m.final s).store.frames.size c.frame := by
  have hends := h s t hrel hn
  unfold Run.outcome Run.final
  generalize m s = r, m' t = r' at hends
  cases hends with
  | @ok v w s t hrel hn hvw =>
    refine ⟨congrArg Except.ok hvw.1, fun f hf => ?_, hrel, fun u hu => ?_⟩
    · cases hf
    · obtain rfl := Except.ok.inj hu
      exact hvw.2
  | @error e s t hrel hn hhalt =>
    refine ⟨rfl, fun f hf => hhalt f (Except.error.inj hf), hrel, fun u hu => ?_⟩
    cases hu

/-! ## Operations on the store -/

/-- Results of two operations on stores: both are related by `Q`, or both are the same fault. -/
inductive Alike (Q : α → β → Prop) : Except Halt α → Except Halt β → Prop
  | ok {a : α} {b : β} (h : Q a b) : Alike Q (.ok a) (.ok b)
  | fault (e : Fault) : Alike Q (.error (.fault e)) (.error (.fault e))

theorem Matches.lookup {f g : FrameId} {x : String}
    (h : ∀ s t, C.Rel s t → n ≤ s.store.frames.size →
      Alike (C.Values s.store.frames.size) (s.store.lookup f x) (t.store.lookup g x)) :
    C.Matches n C.Values (Run.lookup f x) (Run.lookup g x) := by
  intro s t hrel hn
  have halike := h s t hrel hn
  rw [Run.lookup_apply, Run.lookup_apply]
  generalize s.store.lookup f x = r, t.store.lookup g x = r' at halike
  cases halike with
  | ok hvw => exact .ok hrel hn hvw
  | fault e => exact Matches.fail e s t hrel hn

theorem Matches.rebind {op op' : Store → Except Halt Store} {v w : Value}
    (h : ∀ s t, C.Rel s t → n ≤ s.store.frames.size →
      Alike (fun store store' => C.Rel { s with store := store } { t with store := store' } ∧
        s.store.frames.size ≤ store.frames.size) (op s.store) (op' t.store))
    (hvw : ∀ k, n ≤ k → C.Values k v w) :
    C.Matches n C.Values (Run.rebind op v) (Run.rebind op' w) := by
  intro s t hrel hn
  have halike := h s t hrel hn
  rw [Run.rebind_apply, Run.rebind_apply]
  generalize op s.store = r, op' t.store = r' at halike
  cases halike with
  | ok hstores =>
    have hk := Nat.le_trans hn hstores.2
    exact .ok hstores.1 hk (hvw _ hk)
  | fault e => exact Matches.fail e s t hrel hn

theorem Matches.assign {f g : FrameId} {x : String} {v w : Value}
    (h : ∀ s t, C.Rel s t → n ≤ s.store.frames.size →
      Alike (fun store store' => C.Rel { s with store := store } { t with store := store' } ∧
        s.store.frames.size ≤ store.frames.size) (s.store.assign f x v) (t.store.assign g x w))
    (hvw : ∀ k, n ≤ k → C.Values k v w) :
    C.Matches n C.Values (Run.assign f x v) (Run.assign g x w) :=
  @Matches.rebind C n (fun s => s.assign f x v) (fun t => t.assign g x w) v w h hvw

theorem Matches.declare {f g : FrameId} {x : String} {v w : Value} {constant : Bool}
    (h : ∀ s t, C.Rel s t → n ≤ s.store.frames.size →
      Alike (fun store store' => C.Rel { s with store := store } { t with store := store' } ∧
        s.store.frames.size ≤ store.frames.size) (s.store.declare f x v constant)
        (t.store.declare g x w constant))
    (hvw : ∀ k, n ≤ k → C.Values k v w) :
    C.Matches n C.Values (Run.declare f x v constant) (Run.declare g x w constant) :=
  @Matches.rebind C n (fun s => s.declare f x v constant) (fun t => t.declare g x w constant) v w
    h hvw

/-! ## Natives -/

theorem print_matches (hwrite : ∀ text, C.Matches n (fun _ _ _ => True) (Run.write text)
      (Run.write text)) {args args' : List Value} (hargs : C.ValueLists n args args')
    (frame frame' : FrameId) :
    C.Matches n C.Values ((Builtin.print args).perform frame)
      ((Builtin.print args').perform frame') := by
  obtain ⟨rfl, -⟩ := hargs
  rw [Builtin.print, Builtin.print, Value.map_display_rename]
  refine (hwrite _).attempt.bind fun k r r' _ hr => ?_
  obtain ⟨a, b, rfl, rfl, -⟩ | ⟨e, rfl, rfl⟩ := hr
  · exact Matches.pure fun _ _ => ⟨rfl, by simp [Value.closures]⟩
  · exact Matches.fail e

theorem sqrt_matches {args args' : List Value} (hargs : C.ValueLists n args args')
    (frame frame' : FrameId) :
    C.Matches n C.Values ((Builtin.sqrt args).perform frame)
      ((Builtin.sqrt args').perform frame') := by
  obtain ⟨rfl, -⟩ := hargs
  unfold Builtin.sqrt Builtin.withArguments
  rw [List.length_map]
  split
  · cases args with
    | nil => exact Matches.pure fun _ _ => ⟨rfl, by simp [Value.closures]⟩
    | cons v args =>
      cases v with
      | number x => exact Matches.pure fun _ _ => ⟨rfl, by simp [Value.closures]⟩
      | null | bool | object | function | native => exact Matches.fail _
  · exact Matches.fail _

/-- States that belong together have the same clock, and belong together after one more reading. -/
def SharesClock (C : Coupling) : Prop :=
  ∀ s t, C.Rel s t → t.clock = s.clock ∧
    C.Rel { s with clock := s.clock.tick } { t with clock := t.clock.tick }

theorem readClock_matches (hclock : C.SharesClock) :
    C.Matches n (fun _ now now' => now' = now) Run.readClock Run.readClock := by
  intro s t hrel hn
  obtain ⟨heq, hrel⟩ := hclock s t hrel
  exact .ok hrel hn (congrArg Clock.now heq)

theorem clock_matches (hclock : C.SharesClock) {args args' : List Value}
    (hargs : C.ValueLists n args args') (frame frame' : FrameId) :
    C.Matches n C.Values ((Builtin.clock args).perform frame)
      ((Builtin.clock args').perform frame') := by
  obtain ⟨rfl, -⟩ := hargs
  unfold Builtin.clock Builtin.withArguments
  rw [List.length_map]
  split
  · refine (readClock_matches hclock).bind fun k now now' _ hnow => ?_
    simp only [hnow, Run.perform_ofResult]
    cases now.seconds with
    | ok x => exact Matches.pure fun _ _ => ⟨rfl, by simp [Value.closures]⟩
    | error e => exact Matches.fail e
  · exact Matches.fail _

/-- The natives of a host match that only print, take square roots and read clocks that show the
same. -/
theorem action_matches {host : Host} (hwrite : ∀ text, C.Matches n (fun _ _ _ => True)
      (Run.write text) (Run.write text))
    (hnatives : ∀ act ∈ host.actions, act = Builtin.print ∨ act = Builtin.sqrt ∨
      act = Builtin.clock ∧ C.SharesClock)
    {args args' : List Value} (hargs : C.ValueLists n args args') (m : Native)
    (frame frame' : FrameId) :
    C.Matches n C.Values ((host.action m args).perform frame)
      ((host.action m args').perform frame') := by
  unfold Host.action
  cases hact : host.actions[m.identity]? with
  | none => exact Matches.pure fun _ _ => ⟨rfl, by simp [Value.closures]⟩
  | some act =>
    obtain rfl | rfl | ⟨rfl, hclock⟩ := hnatives act (Array.mem_of_getElem? hact)
    · exact print_matches hwrite hargs frame frame'
    · exact sqrt_matches hargs frame frame'
    · exact clock_matches hclock hargs frame frame'

/-! ## Simulations -/

/-- The operations on frames, the events and the natives of the host match. -/
structure IsSimulation (C : Coupling) (host : Host) : Prop where
  seen_mono : ∀ {n k f}, C.Seen n f → n ≤ k → C.Seen k f
  lookup : ∀ {n f}, C.Seen n f → ∀ x,
    C.Matches n C.Values (Run.lookup f x) (Run.lookup (C.numbers.frame f) x)
  assign : ∀ {n f v w}, C.Seen n f → C.Values n v w → ∀ x,
    C.Matches n C.Values (Run.assign f x v) (Run.assign (C.numbers.frame f) x w)
  declare : ∀ {n f v w x}, C.Seen n f → C.MayDeclare f x → C.Values n v w → ∀ constant,
    C.Matches n C.Values (Run.declare f x v constant)
      (Run.declare (C.numbers.frame f) x w constant)
  newFrame : ∀ {n f}, C.Seen n f →
    C.Matches n C.Scopes (Run.newFrame (some f)) (Run.newFrame (some (C.numbers.frame f)))
  newClosure : ∀ n, C.Matches n (fun _ i j => j = C.numbers.identity i) Run.newClosure
    Run.newClosure
  emit : ∀ n e, C.Matches n (fun _ _ _ => True) (Run.emit e) (Run.emit e)
  native : ∀ {n args args'}, C.ValueLists n args args' → ∀ m frame frame',
    C.Matches n C.Values ((host.action m args).perform frame)
      ((host.action m args').perform frame')

namespace IsSimulation

variable {host : Host} {call : Caller}

/-! ## Related results in later states -/

theorem values_mono (hC : C.IsSimulation host) {v w : Value} {k : Nat} (h : C.Values n v w)
    (hk : n ≤ k) : C.Values k v w :=
  ⟨h.1, fun c hc => hC.seen_mono (h.2 c hc) hk⟩

theorem valueLists_mono (hC : C.IsSimulation host) {vs ws : List Value} {k : Nat}
    (h : C.ValueLists n vs ws) (hk : n ≤ k) : C.ValueLists k vs ws :=
  ⟨h.1, fun v hv c hc => hC.seen_mono (h.2 v hv c hc) hk⟩

theorem entries_mono (hC : C.IsSimulation host) {fields others : Fields} {k : Nat}
    (h : C.Entries n fields others) (hk : n ≤ k) : C.Entries k fields others :=
  ⟨h.1, fun c hc => hC.seen_mono (h.2 c hc) hk⟩

theorem valueLists_cons (hC : C.IsSimulation host) {v w : Value} {vs ws : List Value} {k : Nat}
    (h : C.Values n v w) (hk : n ≤ k) (hs : C.ValueLists k vs ws) :
    C.ValueLists k (v :: vs) (w :: ws) := by
  obtain ⟨rfl, hseen⟩ := hC.values_mono h hk
  obtain ⟨rfl, hseens⟩ := hs
  refine ⟨rfl, fun u hu => ?_⟩
  obtain rfl | hu := List.mem_cons.1 hu
  · exact hseen
  · exact hseens u hu

theorem entries_insert (hC : C.IsSimulation host) {fields others : Fields} {v w : Value} {k : Nat}
    (hs : C.Entries n fields others) (hk : n ≤ k) (h : C.Values k v w) (key : String) :
    C.Entries k (fields.insert key v) (others.insert key w) := by
  obtain ⟨rfl, hseens⟩ := hs
  obtain ⟨rfl, hseen⟩ := h
  refine ⟨Fields.insert_rename C.numbers key v fields, fun c hc => ?_⟩
  obtain hc | hc := List.mem_append.1 (Fields.closures_insert key v fields hc)
  · exact hseen c hc
  · exact hC.seen_mono (hseens c hc) hk

theorem values_property {fields others : Fields} (h : C.Entries n fields others) (key : String) :
    C.Values n (fields.property key) (others.property key) := by
  obtain ⟨rfl, hseen⟩ := h
  exact ⟨Fields.property_rename C.numbers fields key,
    fun c hc => hseen c (Fields.closures_property fields key hc)⟩

theorem values_pure (hC : C.IsSimulation host) {v w : Value} (h : C.Values n v w) :
    C.Matches n C.Values (pure v) (pure w) :=
  Matches.pure fun _ hk => hC.values_mono h hk

theorem values_number (n : Nat) (x : Float) : C.Values n (.number x) (.number x) :=
  ⟨rfl, by simp [Value.closures]⟩

theorem values_null (n : Nat) : C.Values n .null .null :=
  ⟨rfl, by simp [Value.closures]⟩

theorem entries_nil (n : Nat) : C.Entries n [] [] :=
  ⟨rfl, by simp [Fields.closures]⟩

theorem values_object {fields others : Fields} (h : C.Entries n fields others) :
    C.Values n (.object fields) (.object others) := by
  obtain ⟨rfl, hseen⟩ := h
  exact ⟨by rw [Value.rename], by simpa only [Value.closures] using hseen⟩

theorem apply_matches (hC : C.IsSimulation host) (operator : Operator) {v v' w w' : Value}
    (hv : C.Values n v v') (hw : C.Values n w w') :
    C.Matches n C.Values (Run.ofExcept (operator.apply v w))
      (Run.ofExcept (operator.apply v' w')) := by
  rw [hv.1, hw.1, Operator.apply_rename]
  cases happly : operator.apply v w with
  | error e => exact Matches.fail e
  | ok u =>
    obtain ⟨x, rfl⟩ := Operator.exists_number_of_apply happly
    exact hC.values_pure (values_number n x)

theorem fields_matches (hC : C.IsSimulation host) {v w : Value} (h : C.Values n v w) :
    C.Matches n C.Entries (Run.ofExcept v.fields) (Run.ofExcept w.fields) := by
  obtain ⟨rfl, hseen⟩ := h
  rw [Value.fields_rename]
  cases hfields : v.fields with
  | error e => exact Matches.fail e
  | ok fields =>
    rw [Value.closures_of_fields hfields] at hseen
    exact Matches.pure fun k hk => ⟨rfl, fun c hc => hC.seen_mono (hseen c hc) hk⟩

theorem propertyKey_matches {v w : Value} (h : C.Values n v w) :
    C.Matches n (fun _ key key' => key' = key) (Run.ofExcept v.propertyKey)
      (Run.ofExcept w.propertyKey) := by
  rw [h.1, Value.propertyKey_rename]
  cases v.propertyKey with
  | error e => exact Matches.fail e
  | ok key => exact Matches.pure fun _ _ => rfl

/-! ## Expressions -/

mutual

/-- Expressions match in corresponding frames if calls do. -/
theorem eval (hC : C.IsSimulation host) (hcall : C.Calls call) : (e : Expr) → ∀ {n f}, C.Seen n f →
    C.Matches n C.Values (e.eval call f) (e.eval call (C.numbers.frame f))
  | .null, n, f, _ => by
    rw [Expr.eval, Expr.eval]
    exact hC.values_pure (values_null n)
  | .number x, n, f, _ => by
    rw [Expr.eval, Expr.eval]
    exact hC.values_pure (values_number n x)
  | .name x, n, f, hf => by
    rw [Expr.eval, Expr.eval]
    exact hC.lookup hf x
  | .assign target value, n, f, hf => by
    cases target with
    | name x =>
      rw [Expr.eval, Expr.eval]
      refine (hC.eval hcall value hf).bind fun k v w hk hvw => ?_
      exact hC.assign (hC.seen_mono hf hk) hvw x
    | _ => exact Matches.fail _
  | .binary operator lhs rhs, n, f, hf => by
    rw [Expr.eval, Expr.eval]
    refine (hC.eval hcall lhs hf).bind fun k v v' hk hv => ?_
    refine (hC.eval hcall rhs (hC.seen_mono hf hk)).bind fun l w w' hl hw => ?_
    exact hC.apply_matches operator (hC.values_mono hv hl) hw
  | .call callee arguments, n, f, hf => by
    rw [Expr.eval, Expr.eval]
    refine (hC.eval hcall callee hf).bind fun k g g' hk hg => ?_
    have hargs := hC.evalAll hcall arguments (hC.seen_mono hf hk)
    exact hargs.bind fun l args args' hl hlists =>
      hcall l g g' args args' f _ (hC.values_mono hg hl) hlists
  | .dot object property, n, f, hf => by
    rw [Expr.eval, Expr.eval]
    refine (hC.eval hcall object hf).bind fun k v w _ hvw => ?_
    refine (hC.fields_matches hvw).bind fun l fields others _ hfields => ?_
    cases property with
    | name x => exact hC.values_pure (values_property hfields x)
    | _ => exact Matches.fail _
  | .index object key, n, f, hf => by
    rw [Expr.eval, Expr.eval]
    refine (hC.eval hcall object hf).bind fun k v w hk hvw => ?_
    refine (hC.fields_matches hvw).bind fun l fields others hl hfields => ?_
    have hf' := hC.seen_mono hf (Nat.le_trans hk hl)
    refine (hC.eval hcall key hf').bind fun i x y hi hxy => ?_
    refine (propertyKey_matches hxy).bind fun j a b hj hab => ?_
    rw [hab]
    have hproperty := values_property hfields a
    exact hC.values_pure (hC.values_mono hproperty (Nat.le_trans hi hj))
  | .object properties, n, f, hf => by
    rw [Expr.eval, Expr.eval]
    refine (hC.evalProperties hcall properties hf (entries_nil n)).bind fun k _ _ _ hfields => ?_
    exact hC.values_pure (values_object hfields)

theorem evalAll (hC : C.IsSimulation host) (hcall : C.Calls call) : (es : List Expr) → ∀ {n f},
    C.Seen n f → C.Matches n C.ValueLists (evalAll call f es)
      (evalAll call (C.numbers.frame f) es)
  | [], n, f, _ => by
    rw [ScopeScript.evalAll, ScopeScript.evalAll]
    exact Matches.pure fun k _ => ⟨rfl, by simp⟩
  | e :: rest, n, f, hf => by
    rw [ScopeScript.evalAll, ScopeScript.evalAll]
    refine (hC.eval hcall e hf).bind fun k v w hk hvw => ?_
    refine (hC.evalAll hcall rest (hC.seen_mono hf hk)).bind fun l vs ws hl hlists => ?_
    have hcons := hC.valueLists_cons hvw hl hlists
    exact Matches.pure fun i hi => hC.valueLists_mono hcons hi

theorem evalProperties (hC : C.IsSimulation host) (hcall : C.Calls call) :
    (properties : List Property) → ∀ {n f fields others}, C.Seen n f →
      C.Entries n fields others →
      C.Matches n C.Entries (evalProperties call f fields properties)
        (evalProperties call (C.numbers.frame f) others properties)
  | [], n, f, fields, others, _, hs => by
    rw [ScopeScript.evalProperties, ScopeScript.evalProperties]
    exact Matches.pure fun k hk => hC.entries_mono hs hk
  | .shorthand key :: rest, n, f, fields, others, hf, hs => by
    rw [ScopeScript.evalProperties, ScopeScript.evalProperties]
    refine (hC.lookup hf key).bind fun k v w hk hvw => ?_
    exact hC.evalProperties hcall rest (hC.seen_mono hf hk) (hC.entries_insert hs hk hvw key)
  | .keyed key value :: rest, n, f, fields, others, hf, hs => by
    rw [ScopeScript.evalProperties, ScopeScript.evalProperties]
    refine (hC.eval hcall value hf).bind fun k v w hk hvw => ?_
    exact hC.evalProperties hcall rest (hC.seen_mono hf hk) (hC.entries_insert hs hk hvw key)

end

/-! ## Statements -/

/-- A statement matches in corresponding frames in which its name may be declared. -/
theorem run (hC : C.IsSimulation host) (hcall : C.Calls call) (stmt : Stmt) {f : FrameId}
    (hf : C.Seen n f) (hnames : ∀ x ∈ stmt.declaredName?, C.MayDeclare f x) :
    C.Matches n C.Values (stmt.run call f) (stmt.run call (C.numbers.frame f)) := by
  cases stmt with
  | declare constant name init? =>
    have hdeclare (k : Nat) (v w : Value) (hk : n ≤ k) (hvw : C.Values k v w) :
        C.Matches k C.Values
          (Run.emit (.declaringVariable name constant) >>= fun _ => Run.declare f name v constant)
          (Run.emit (.declaringVariable name constant) >>= fun _ =>
            Run.declare (C.numbers.frame f) name w constant) := by
      refine (hC.emit k _).bind fun l _ _ hl _ => ?_
      have hf' := hC.seen_mono hf (Nat.le_trans hk hl)
      exact hC.declare hf' (hnames name rfl) (hC.values_mono hvw hl) constant
    cases init? with
    | some init => exact (hC.eval hcall init hf).bind hdeclare
    | none => exact (hC.values_pure (values_null n)).bind hdeclare
  | define name params body =>
    refine (hC.newClosure n).bind fun k i j hk hij => ?_
    refine (hC.emit k _).bind fun l _ _ hl _ => ?_
    have hf' := hC.seen_mono hf (Nat.le_trans hk hl)
    refine hC.declare hf' (hnames name rfl) ⟨?_, ?_⟩ true
    · rw [hij]
      rfl
    · simpa [Value.closures] using hf'
  | expr e => exact hC.eval hcall e hf

/-- Statements match in corresponding frames in which their names may be declared. -/
theorem runAll (hC : C.IsSimulation host) (hcall : C.Calls call) (stmts : List Stmt)
    {f : FrameId} {last last' : Value} (hf : C.Seen n f)
    (hnames : ∀ x ∈ declaredNames stmts, C.MayDeclare f x) (hlast : C.Values n last last') :
    C.Matches n C.Values (Stmt.runAll call f last stmts)
      (Stmt.runAll call (C.numbers.frame f) last' stmts) := by
  induction stmts generalizing n last last' with
  | nil => exact hC.values_pure hlast
  | cons stmt rest ih =>
    have hstmt (x : String) (hx : x ∈ stmt.declaredName?) : C.MayDeclare f x :=
      hnames x (List.mem_filterMap.2 ⟨stmt, List.mem_cons_self, hx⟩)
    have hrest (x : String) (hx : x ∈ declaredNames rest) : C.MayDeclare f x := by
      obtain ⟨s, hs, hsx⟩ := List.mem_filterMap.1 hx
      exact hnames x (List.mem_filterMap.2 ⟨s, List.mem_cons_of_mem stmt hs, hsx⟩)
    refine (hC.run hcall stmt hf hstmt).bind fun k v w hk hvw => ?_
    exact ih (hC.seen_mono hf hk) hrest hvw

/-! ## Calls -/

theorem bind (hC : C.IsSimulation host) {f : FrameId} (params : List String) (args : List Value)
    (hf : C.Seen n f) (hnames : ∀ x, C.MayDeclare f x)
    (hargs : ∀ v ∈ args, ∀ c ∈ v.closures, C.Seen n c.frame) :
    C.Matches n (fun _ _ _ => True) (Run.bind f (params.zip args))
      (Run.bind (C.numbers.frame f) (params.zip (args.map (Value.rename C.numbers)))) := by
  induction params generalizing n args with
  | nil => exact Matches.pure fun _ _ => trivial
  | cons x params ih =>
    cases args with
    | nil => exact Matches.pure fun _ _ => trivial
    | cons v args =>
      have hv : C.Values n v (v.rename C.numbers) := ⟨rfl, hargs v List.mem_cons_self⟩
      refine (hC.declare hf (hnames x) hv false).bind fun k _ _ hk _ => ?_
      refine ih args (hC.seen_mono hf hk) fun w hw c hc => ?_
      exact hC.seen_mono (hargs w (List.mem_cons_of_mem v hw) c hc) hk

/-- The bodies of corresponding functions match. -/
theorem enter (hC : C.IsSimulation host) (hcall : C.Calls call) (c : Closure)
    {args args' : List Value} (hc : C.Seen n c.frame) (hargs : C.ValueLists n args args') :
    C.Matches n C.Values (Run.enter call c args) (Run.enter call (c.rename C.numbers) args') := by
  obtain ⟨rfl, hseen⟩ := hargs
  rw [Run.enter, Run.enter, List.length_map]
  by_cases hlength : args.length = c.params.length
  · have hlength' : args.length = (c.rename C.numbers).params.length := hlength
    rw [if_pos hlength, if_pos hlength']
    refine (hC.emit n _).bind fun k _ _ hk _ => ?_
    refine (hC.newFrame (hC.seen_mono hc hk)).bind fun l f g hl hscopes => ?_
    obtain ⟨rfl, hf, hnames⟩ := hscopes
    have hseen' (v : Value) (hv : v ∈ args) (d : Closure) (hd : d ∈ v.closures) :
        C.Seen l d.frame := hC.seen_mono (hseen v hv d hd) (Nat.le_trans hk hl)
    refine (hC.bind c.params args hf hnames hseen').bind fun i _ _ hi _ => ?_
    exact hC.runAll hcall c.body (hC.seen_mono hf hi) (fun x _ => hnames x) (values_null i)
  · have hlength' : args.length ≠ (c.rename C.numbers).params.length := hlength
    rw [if_neg hlength, if_neg hlength']
    exact Matches.fail _

/-- Calls match if those in the bodies of functions do. -/
theorem apply (hC : C.IsSimulation host) (hcall : C.Calls call) :
    C.Calls (Run.apply host call) := by
  intro n f f' args args' frame frame' hf hargs
  obtain ⟨rfl, hseen⟩ := hf
  have hlength : args'.length = args.length := by rw [hargs.1, List.length_map]
  cases f with
  | native m =>
    rw [Value.rename, Run.apply, Run.apply, hlength]
    refine (hC.emit n _).bind fun k _ _ hk _ => ?_
    exact hC.native (hC.valueLists_mono hargs hk) m frame frame'
  | function c =>
    rw [Value.rename, Run.apply, Run.apply]
    exact hC.enter hcall c (hseen c List.mem_cons_self) hargs
  | null | number | bool | object => exact Matches.fail _

/-- Calls match at every depth. -/
theorem calls (hC : C.IsSimulation host) (depth : Nat) : C.Calls (Run.call host depth) := by
  induction depth with
  | zero =>
    intro n f f' args args' frame frame' _ _
    refine Matches.throw fun g hg => ?_
    cases hg
  | succ depth ih => exact hC.apply ih

/-- A program matches in corresponding frames in which its names may be declared. -/
theorem program (hC : C.IsSimulation host) (depth : Nat) (p : Program) {f : FrameId}
    (hf : C.Seen n f) (hnames : ∀ x ∈ declaredNames p.body, C.MayDeclare f x) :
    C.Matches n C.Values (p.run host depth f) (p.run host depth (C.numbers.frame f)) :=
  hC.runAll (hC.calls depth) p.body hf hnames (values_null n)

end IsSimulation

end Coupling

end ScopeScript
