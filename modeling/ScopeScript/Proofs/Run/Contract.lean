import ScopeScript.Proofs.Run.Declaration

/-!
# What runs rely on and maintain

A contract says which stores there may be, which values may occur in them, what may be run in which
frames, and with which halts runs may end.  If the operations on the store and the natives keep to
it (`Contract.IsKept`), then every evaluation does: started in a store that is allowed, with code
and values that are allowed there, it ends in an allowed store with an allowed value or halt.

Later stores keep what earlier ones have, so what was allowed in an earlier store is allowed later.
-/

namespace ScopeScript

/-- The expressions that are evaluated as parts of an expression. -/
def Expr.parts : Expr → List Expr
  | .null | .number _ | .name _ => []
  | .assign _ value => [value]
  | .binary _ lhs rhs => [lhs, rhs]
  | .call callee arguments => callee :: arguments
  | .dot owner _ => [owner]
  | .index owner key => [owner, key]
  | .object properties => properties.filterMap Property.value?

theorem Operator.apply_ne_propertyNotAName (operator : Operator) (v w : Value) :
    operator.apply v w ≠ .error .propertyNotAName := by
  unfold Operator.apply
  split
  · unfold Operator.compute
    repeat' split
    all_goals exact nofun
  · exact nofun

/-- Makes the frame of a call, declares the parameters in it, and answers with the frame. -/
def Run.openScope (c : Closure) (args : List Value) : Run FrameId := do
  emit (.callingFunction c.name args.length)
  let scope ← newFrame (some c.frame)
  bind scope (c.params.zip args)
  return scope

/-- A call with the right number of arguments runs the body in a frame of its own. -/
theorem Run.enter_eq (call : Caller) {c : Closure} {args : List Value}
    (h : args.length = c.params.length) :
    enter call c args = openScope c args >>= fun scope => Stmt.runAll call scope .null c.body := by
  rw [enter, if_pos h, openScope]
  simp only [bind_assoc, pure_bind]

/-- What is allowed in runs. -/
structure Contract where
  /-- The store may occur. -/
  store : Store → Prop
  /-- The value may occur in the store, or be at hand. -/
  value : Store → Value → Prop
  /-- Code may be run in the frame. -/
  frame : Store → FrameId → Prop
  /-- The expression may be evaluated. -/
  expr : Expr → Prop
  /-- The statement may be run in the frame. -/
  stmt : Store → FrameId → Stmt → Prop
  /-- A run may end with the halt. -/
  halt : Halt → Prop

namespace Contract

open Run

variable {C : Contract} {α β : Type} {s : State}

/-- From the state `s` the computation comes to an allowed and later store, with a result that `Q`
holds of there, or with an allowed halt. -/
structure Ends (C : Contract) (Q : Store → α → Prop) (m : Run α) (s : State) : Prop where
  store : C.store (m.final s).store
  keeps : s.store.Keeps (m.final s).store
  value : ∀ a, m.outcome s = .ok a → Q (m.final s).store a
  halt : ∀ h, m.outcome s = .error h → C.halt h

/-! ## Rules -/

namespace Ends

variable {Q : Store → α → Prop} {Q' : Store → β → Prop} {m : Run α} {f : α → Run β}

theorem pure {a : α} (hs : C.store s.store) (ha : Q s.store a) : C.Ends Q (pure a) s where
  store := hs
  keeps := .refl _
  value _ h := Except.ok.inj h ▸ ha
  halt _ h := nomatch h

theorem throw {h : Halt} (hs : C.store s.store) (hh : C.halt h) : C.Ends Q (throw h) s where
  store := hs
  keeps := .refl _
  value _ h := nomatch h
  halt _ h' := Except.error.inj h' ▸ hh

theorem bind (hm : C.Ends Q m s)
    (hf : ∀ a, m.outcome s = .ok a → C.Ends Q' (f a) (m.final s)) : C.Ends Q' (m >>= f) s := by
  cases hend : m.outcome s with
  | ok a =>
    have ha := hf a hend
    constructor
    · rw [final_bind_of_ok hend]
      exact ha.store
    · rw [final_bind_of_ok hend]
      exact hm.keeps.trans ha.keeps
    · rw [final_bind_of_ok hend, outcome_bind_of_ok hend]
      exact ha.value
    · rw [outcome_bind_of_ok hend]
      exact ha.halt
  | error h =>
    constructor
    · rw [final_bind_of_error hend]
      exact hm.store
    · rw [final_bind_of_error hend]
      exact hm.keeps
    · rw [outcome_bind_of_error hend]
      exact fun _ h => nomatch h
    · rw [outcome_bind_of_error hend]
      exact fun h' heq => Except.error.inj heq ▸ hm.halt h hend

/-- What follows a computation is run in an allowed and later store, with what is known of the
result. -/
theorem andThen (hm : C.Ends Q m s)
    (hf : ∀ a t, C.store t.store → s.store.Keeps t.store → Q t.store a → C.Ends Q' (f a) t) :
    C.Ends Q' (m >>= f) s :=
  hm.bind fun a ha => hf a _ hm.store hm.keeps (hm.value a ha)

theorem attempt (hm : C.Ends Q m s) :
    C.Ends (fun t r => ∀ a, r = .ok a → Q t a) m.attempt s where
  store := (final_attempt m s).symm ▸ hm.store
  keeps := (final_attempt m s).symm ▸ hm.keeps
  value r hr := by
    rintro a rfl
    rw [final_attempt]
    refine hm.value a ?_
    rw [outcome_attempt] at hr
    revert hr
    cases m.outcome s with
    | ok b => exact fun hr => congrArg Except.ok (Except.ok.inj (Except.ok.inj hr))
    | error h =>
      cases h with
      | fault f => exact fun hr => nomatch Except.ok.inj hr
      | _ => exact fun hr => nomatch hr
  halt h hh := by
    refine hm.halt h ?_
    rw [outcome_attempt] at hh
    revert hh
    cases m.outcome s with
    | ok b => exact fun hh => nomatch hh
    | error h' =>
      cases h' with
      | fault f => exact fun hh => nomatch hh
      | _ => exact fun hh => congrArg Except.error (Except.error.inj hh)

theorem query {q : Store → Except Halt α} (hs : C.store s.store)
    (hok : ∀ a, q s.store = .ok a → Q s.store a) (herror : ∀ h, q s.store = .error h → C.halt h) :
    C.Ends Q (query q) s := by
  constructor
  · rwa [final_query]
  · rw [final_query]
    exact .refl _
  · rwa [final_query, outcome_query]
  · rwa [outcome_query]

theorem rebind {Q : Store → Value → Prop} {op : Store → Except Halt Store} {v : Value}
    (hs : C.store s.store) (hkeeps : ∀ t, op s.store = .ok t → s.store.Keeps t)
    (hok : ∀ t, op s.store = .ok t → C.store t ∧ Q t v)
    (herror : ∀ h, op s.store = .error h → C.halt h) : C.Ends Q (rebind op v) s := by
  cases hop : op s.store with
  | ok t =>
    have hfinal : (Run.rebind op v).final s = { s with store := t } := by rw [final_rebind, hop]
    constructor
    · rw [hfinal]
      exact (hok t hop).1
    · rw [hfinal]
      exact hkeeps t hop
    · rw [hfinal, outcome_rebind, hop]
      exact fun w hw => Except.ok.inj hw ▸ (hok t hop).2
    · rw [outcome_rebind, hop]
      exact fun _ h => nomatch h
  | error h =>
    have hfinal : (Run.rebind op v).final s = s := by rw [final_rebind, hop]
    constructor
    · rwa [hfinal]
    · rw [hfinal]
      exact .refl _
    · rw [outcome_rebind, hop]
      exact fun _ h => nomatch h
    · rw [outcome_rebind, hop]
      exact fun h' hh => Except.error.inj hh ▸ herror h hop

theorem ofExcept {r : Except Fault α} (hs : C.store s.store) (hok : ∀ a, r = .ok a → Q s.store a)
    (herror : ∀ f, r = .error f → C.halt (.fault f)) : C.Ends Q (ofExcept r) s := by
  cases r with
  | ok a => exact .pure hs (hok a rfl)
  | error f => exact .throw hs (herror f rfl)

theorem write (text : String) (hs : C.store s.store) (hfull : C.halt (.fault .sinkFull)) :
    C.Ends (fun _ _ => True) (write text) s := by
  constructor
  · rwa [final_write]
  · rw [final_write]
    exact .refl _
  · exact fun _ _ => trivial
  · rw [outcome_write]
    split
    · exact fun _ h => nomatch h
    · exact fun _ h => Except.error.inj h ▸ hfull

theorem readClock (hs : C.store s.store) : C.Ends (fun _ _ => True) readClock s where
  store := hs
  keeps := .refl _
  value _ _ := trivial
  halt _ h := nomatch h

theorem emit (e : Event) (hs : C.store s.store) :
    C.Ends (fun t _ => t = s.store) (emit e) s where
  store := hs
  keeps := .refl _
  value _ _ := rfl
  halt _ h := nomatch h

end Ends

/-! ## Contracts that are kept -/

/-- What later stores leave alone, what the parts of code are, and what the operations on the store
do. -/
structure IsLawful (C : Contract) : Prop where
  value_mono : ∀ {s t : Store} {v : Value}, s.Keeps t → C.value s v → C.value t v
  frame_mono : ∀ {s t : Store} {f : FrameId}, s.Keeps t → C.frame s f → C.frame t f
  stmt_mono : ∀ {s t : Store} {f : FrameId} {stmt : Stmt},
    s.Keeps t → C.stmt s f stmt → C.stmt t f stmt
  null : ∀ s, C.value s .null
  number : ∀ s x, C.value s (.number x)
  object : ∀ s, C.value s (.object [])
  insert : ∀ {s : Store} {properties : List Property} {p : Property} {fields : Fields} {v : Value},
    C.expr (.object properties) → p ∈ properties → C.value s (.object fields) → C.value s v →
      C.value s (.object (fields.insert p.key v))
  property : ∀ {s : Store} {fields : Fields}, C.value s (.object fields) →
    ∀ key, C.value s (fields.property key)
  parts : ∀ {e : Expr}, C.expr e → ∀ d ∈ e.parts, C.expr d
  dot : ∀ {object property : Expr}, C.expr (.dot object property) →
    (∃ x, property = .name x) ∨ C.halt (.fault .propertyNotAName)
  init : ∀ {s : Store} {f : FrameId} {constant : Bool} {x : String} {e : Expr},
    C.stmt s f (.declare constant x (some e)) → C.expr e
  statement : ∀ {s : Store} {f : FrameId} {e : Expr}, C.stmt s f (.expr e) → C.expr e
  fault : ∀ {f : Fault}, f ≠ .propertyNotAName → C.halt (.fault f)
  tooDeep : C.halt .tooDeep
  lookup : ∀ {s : Store} {f : FrameId}, C.store s → C.frame s f → ∀ x,
    (∀ v, s.lookup f x = .ok v → C.value s v) ∧ ∀ h, s.lookup f x = .error h → C.halt h
  assign : ∀ {s : Store} {f : FrameId} {v : Value}, C.store s → C.frame s f → C.value s v → ∀ x,
    (∀ t, s.assign f x v = .ok t → C.store t) ∧ ∀ h, s.assign f x v = .error h → C.halt h
  declare : ∀ {s : Store} {f : FrameId} {v : Value}, C.store s → C.frame s f → C.value s v →
    ∀ x constant, (∀ t, s.declare f x v constant = .ok t → C.store t) ∧
      ∀ h, s.declare f x v constant = .error h → C.halt h
  /-- A function is declared that was not in the store before. -/
  define : ∀ {s : Store} {f : FrameId} {x : String} {params : List String} {body : List Stmt},
    C.store s → C.frame s f → C.stmt s f (.define x params body) →
      let v := Value.function ⟨s.closures, x, params, body, f⟩
      C.store s.newClosure.2 ∧
        (∀ t, s.newClosure.2.declare f x v true = .ok t → C.store t ∧ C.value t v) ∧
        ∀ h, s.newClosure.2.declare f x v true = .error h → C.halt h
  /-- A frame is made for a call. -/
  enter : ∀ {s : Store} {c : Closure}, C.store s → C.value s (.function c) →
    let t := (s.newFrame (some c.frame)).2
    C.store t ∧ C.frame t s.frames.size ∧ ∀ stmt ∈ c.body, C.stmt t s.frames.size stmt

/-- Besides, the natives of the host do what the contract says. -/
structure IsKept (C : Contract) (host : Host) : Prop extends C.IsLawful where
  native : ∀ (n : Native) {args : List Value} {f : FrameId} {s : State}, C.store s.store →
    C.frame s.store f → (∀ v ∈ args, C.value s.store v) →
      C.Ends C.value ((host.action n args).perform f) s

/-- Calls of allowed values with allowed arguments end as the contract says. -/
def Calls (C : Contract) (call : Caller) : Prop :=
  ∀ ⦃v : Value⦄ ⦃args : List Value⦄ ⦃f : FrameId⦄ ⦃s : State⦄, C.store s.store →
    C.value s.store v → (∀ w ∈ args, C.value s.store w) → C.frame s.store f →
      C.Ends C.value (call v args f) s

namespace IsLawful

variable {f : FrameId}

theorem lookup_ends (hC : C.IsLawful) (hs : C.store s.store) (hf : C.frame s.store f)
    (x : String) : C.Ends C.value (Run.lookup f x) s := by
  rw [lookup_eq_query]
  exact .query hs (hC.lookup hs hf x).1 (hC.lookup hs hf x).2

theorem assign_ends (hC : C.IsLawful) {v : Value} (hs : C.store s.store)
    (hf : C.frame s.store f) (hv : C.value s.store v) (x : String) :
    C.Ends C.value (Run.assign f x v) s := by
  obtain ⟨hok, herror⟩ := hC.assign hs hf hv x
  rw [assign_eq_rebind]
  refine .rebind hs (fun t => Store.keeps_assign) (fun t ht => ⟨hok t ht, ?_⟩) herror
  exact hC.value_mono (Store.keeps_assign ht) hv

theorem declare_ends (hC : C.IsLawful) {v : Value} (hs : C.store s.store)
    (hf : C.frame s.store f) (hv : C.value s.store v) (x : String) (constant : Bool) :
    C.Ends C.value (Run.declare f x v constant) s := by
  obtain ⟨hok, herror⟩ := hC.declare hs hf hv x constant
  rw [declare_eq_rebind]
  refine .rebind hs (fun t => Store.keeps_declare) (fun t ht => ⟨hok t ht, ?_⟩) herror
  exact hC.value_mono (Store.keeps_declare ht) hv

theorem apply_ends (hC : C.IsLawful) (hs : C.store s.store) (operator : Operator)
    (v w : Value) : C.Ends C.value (Run.ofExcept (operator.apply v w)) s := by
  refine .ofExcept hs (fun u hu => ?_) fun e he => hC.fault ?_
  · obtain ⟨x, rfl⟩ := Operator.exists_number_of_apply hu
    exact hC.number _ x
  · rintro rfl
    exact operator.apply_ne_propertyNotAName v w he

theorem fields_ends (hC : C.IsLawful) (hs : C.store s.store) {v : Value}
    (hv : C.value s.store v) :
    C.Ends (fun t fields => C.value t (.object fields)) (Run.ofExcept v.fields) s := by
  cases v with
  | object fields => exact .pure hs hv
  | null | number | bool | function | native => exact .throw hs (hC.fault (by simp))

theorem propertyKey_ends (hC : C.IsLawful) (hs : C.store s.store) (v : Value) :
    C.Ends (fun _ _ => True) (Run.ofExcept v.propertyKey) s := by
  cases v with
  | number | bool => exact .pure hs trivial
  | null | object | function | native => exact .throw hs (hC.fault (by simp))

end IsLawful

namespace IsKept

variable {host : Host} {call : Caller} {f : FrameId}

/-! ## Expressions -/

mutual

theorem eval (hC : C.IsKept host) (hcall : C.Calls call) : (e : Expr) → C.expr e →
    ∀ {s : State}, C.store s.store → C.frame s.store f → C.Ends C.value (e.eval call f) s
  | .null, _, _, hs, _ => .pure hs (hC.null _)
  | .number x, _, _, hs, _ => .pure hs (hC.number _ x)
  | .name x, _, _, hs, hf => hC.lookup_ends hs hf x
  | .assign target value, he, _, hs, hf => by
    cases target with
    | name x =>
      have hvalue := hC.parts he value List.mem_cons_self
      refine (eval hC hcall value hvalue hs hf).andThen fun v t ht hst hv => ?_
      exact hC.assign_ends ht (hC.frame_mono hst hf) hv x
    | _ => exact .throw hs (hC.fault (by simp))
  | .binary operator lhs rhs, he, _, hs, hf => by
    have hlhs := hC.parts he lhs (by simp [Expr.parts])
    have hrhs := hC.parts he rhs (by simp [Expr.parts])
    refine (eval hC hcall lhs hlhs hs hf).andThen fun v t ht hst _ => ?_
    refine (eval hC hcall rhs hrhs ht (hC.frame_mono hst hf)).andThen fun w u hu _ _ => ?_
    exact hC.apply_ends hu operator v w
  | .call callee arguments, he, _, hs, hf => by
    have hcallee := hC.parts he callee (by simp [Expr.parts])
    have harguments : ∀ e ∈ arguments, C.expr e := fun e hmem =>
      hC.parts he e (by simp [Expr.parts, hmem])
    refine (eval hC hcall callee hcallee hs hf).andThen fun v t ht hst hv => ?_
    have hft := hC.frame_mono hst hf
    refine (evalAll hC hcall arguments harguments ht hft).andThen fun args u hu htu hargs => ?_
    exact hcall hu (hC.value_mono htu hv) hargs (hC.frame_mono htu hft)
  | .dot object property, he, _, hs, hf => by
    have hobject := hC.parts he object (by simp [Expr.parts])
    refine (eval hC hcall object hobject hs hf).andThen fun v t ht _ hv => ?_
    refine (hC.fields_ends ht hv).andThen fun fields u hu _ hfields => ?_
    obtain ⟨x, rfl⟩ | hhalt := hC.dot he
    · exact .pure hu (hC.property hfields x)
    · cases property with
      | name x => exact .pure hu (hC.property hfields x)
      | _ => exact .throw hu hhalt
  | .index object key, he, _, hs, hf => by
    have hobject := hC.parts he object (by simp [Expr.parts])
    have hkey := hC.parts he key (by simp [Expr.parts])
    refine (eval hC hcall object hobject hs hf).andThen fun v t ht hst hv => ?_
    refine (hC.fields_ends ht hv).andThen fun fields u hu htu hfields => ?_
    have hfu := hC.frame_mono htu (hC.frame_mono hst hf)
    refine (eval hC hcall key hkey hu hfu).andThen fun w u' hu' huu' _ => ?_
    refine (hC.propertyKey_ends hu' w).andThen fun k u'' hu'' huu'' _ => ?_
    exact .pure hu'' (hC.property (hC.value_mono huu'' (hC.value_mono huu' hfields)) k)
  | .object properties, he, _, hs, hf => by
    refine (evalProperties hC hcall properties he (fun _ hp => hp) hs hf (hC.object _)).andThen
      fun fields t ht _ hfields => ?_
    exact .pure ht hfields

theorem evalAll (hC : C.IsKept host) (hcall : C.Calls call) : (es : List Expr) →
    (∀ e ∈ es, C.expr e) → ∀ {s : State}, C.store s.store → C.frame s.store f →
      C.Ends (fun t vs => ∀ v ∈ vs, C.value t v) (evalAll call f es) s
  | [], _, _, hs, _ => .pure hs (by simp)
  | e :: rest, hes, _, hs, hf => by
    obtain ⟨he, hrest⟩ := List.forall_mem_cons.1 hes
    refine (eval hC hcall e he hs hf).andThen fun v t ht hst hv => ?_
    refine (evalAll hC hcall rest hrest ht (hC.frame_mono hst hf)).andThen fun vs u hu htu hvs => ?_
    exact .pure hu (List.forall_mem_cons.2 ⟨hC.value_mono htu hv, hvs⟩)

/-- The entries are some of those of an object literal that may be evaluated. -/
theorem evalProperties (hC : C.IsKept host) (hcall : C.Calls call) {all : List Property} :
    (properties : List Property) →
    C.expr (.object all) → (∀ p ∈ properties, p ∈ all) → ∀ {fields : Fields} {s : State},
      C.store s.store → C.frame s.store f → C.value s.store (.object fields) →
        C.Ends (fun t fields => C.value t (.object fields))
          (evalProperties call f fields properties) s
  | [], _, _, _, _, hs, _, hfields => .pure hs hfields
  | .shorthand key :: rest, hall, hmem, _, _, hs, hf, hfields => by
    obtain ⟨hp, hrest⟩ := List.forall_mem_cons.1 hmem
    refine (hC.lookup_ends hs hf key).andThen fun v t ht hst hv => ?_
    exact evalProperties hC hcall rest hall hrest ht (hC.frame_mono hst hf)
      (hC.insert hall hp (hC.value_mono hst hfields) hv)
  | .keyed key value :: rest, hall, hmem, _, _, hs, hf, hfields => by
    obtain ⟨hp, hrest⟩ := List.forall_mem_cons.1 hmem
    have hvalue := hC.parts hall value (List.mem_filterMap.2 ⟨_, hp, rfl⟩)
    refine (eval hC hcall value hvalue hs hf).andThen fun v t ht hst hv => ?_
    exact evalProperties hC hcall rest hall hrest ht (hC.frame_mono hst hf)
      (hC.insert hall hp (hC.value_mono hst hfields) hv)

end

/-! ## Statements -/

/-- A function is made with the next identity and declared. -/
theorem define_ends (hC : C.IsKept host) {x : String} {params : List String} {body : List Stmt}
    (hs : C.store s.store) (hf : C.frame s.store f)
    (hstmt : C.stmt s.store f (.define x params body)) :
    C.Ends C.value ((Stmt.define x params body).run call f) s := by
  obtain ⟨hnew, hok, herror⟩ := hC.define hs hf hstmt
  have hidentity : C.Ends (fun _ _ => True) Run.newClosure s :=
    ⟨hnew, .refl _, fun _ _ => trivial, fun _ h => nomatch h⟩
  refine hidentity.bind fun identity hid => ?_
  obtain rfl : s.store.closures = identity := Except.ok.inj hid
  refine (Ends.emit _ hnew).bind fun _ _ => ?_
  rw [declare_eq_rebind]
  exact .rebind hnew (fun _ => Store.keeps_declare) hok herror

theorem run (hC : C.IsKept host) (hcall : C.Calls call) {stmt : Stmt} (hs : C.store s.store)
    (hf : C.frame s.store f) (hstmt : C.stmt s.store f stmt) :
    C.Ends C.value (stmt.run call f) s := by
  cases stmt with
  | declare constant x init? =>
    have hdeclare (v : Value) (t : State) (ht : C.store t.store) (hst : s.store.Keeps t.store)
        (hv : C.value t.store v) : C.Ends C.value (Run.emit (.declaringVariable x constant) >>=
          fun _ => Run.declare f x v constant) t :=
      (Ends.emit _ ht).andThen fun _ u hu htu _ =>
        hC.declare_ends hu (hC.frame_mono htu (hC.frame_mono hst hf)) (hC.value_mono htu hv) x _
    cases init? with
    | some init => exact (eval hC hcall init (hC.init hstmt) hs hf).andThen hdeclare
    | none => exact (Ends.pure hs (hC.null _)).andThen hdeclare
  | define x params body => exact hC.define_ends hs hf hstmt
  | expr e => exact eval hC hcall e (hC.statement hstmt) hs hf

theorem runAll (hC : C.IsKept host) (hcall : C.Calls call) {body : List Stmt} {last : Value}
    (hs : C.store s.store) (hf : C.frame s.store f) (hbody : ∀ stmt ∈ body, C.stmt s.store f stmt)
    (hlast : C.value s.store last) : C.Ends C.value (Stmt.runAll call f last body) s := by
  induction body generalizing last s with
  | nil => exact .pure hs hlast
  | cons stmt rest ih =>
    obtain ⟨hstmt, hrest⟩ := List.forall_mem_cons.1 hbody
    refine (run hC hcall hs hf hstmt).andThen fun v t ht hst hv => ?_
    exact ih ht (hC.frame_mono hst hf) (fun stmt hmem => hC.stmt_mono hst (hrest stmt hmem)) hv

/-! ## Calls -/

theorem bind (hC : C.IsKept host) {params : List (String × Value)} (hs : C.store s.store)
    (hf : C.frame s.store f) (hparams : ∀ p ∈ params, C.value s.store p.2) :
    C.Ends (fun _ _ => True) (Run.bind f params) s := by
  induction params generalizing s with
  | nil => exact .pure hs trivial
  | cons p rest ih =>
    obtain ⟨hp, hrest⟩ := List.forall_mem_cons.1 hparams
    refine (hC.declare_ends hs hf hp p.1 false).andThen fun _ t ht hst _ => ?_
    exact ih ht (hC.frame_mono hst hf) fun q hq => hC.value_mono hst (hrest q hq)

theorem openScope_ends (hC : C.IsKept host) {c : Closure} {args : List Value}
    (hs : C.store s.store) (hc : C.value s.store (.function c))
    (hargs : ∀ v ∈ args, C.value s.store v) :
    C.Ends (fun t f => C.frame t f ∧ ∀ stmt ∈ c.body, C.stmt t f stmt)
      (Run.openScope c args) s := by
  obtain ⟨hnew, hscope, hbody⟩ := hC.enter hs hc
  have hkeeps := Store.keeps_newFrame s.store (some c.frame)
  refine (Ends.emit _ hs).bind fun _ _ => ?_
  have hframe : C.Ends (fun _ _ => True) (Run.newFrame (some c.frame))
      ((Run.emit (.callingFunction c.name args.length)).final s) :=
    ⟨hnew, hkeeps, fun _ _ => trivial, fun _ h => nomatch h⟩
  refine hframe.bind fun scope hsize => ?_
  obtain rfl : s.store.frames.size = scope := Except.ok.inj hsize
  have hparams : ∀ p ∈ c.params.zip args,
      C.value (s.store.newFrame (some c.frame)).2 p.2 := fun p hp =>
    hC.value_mono hkeeps (hargs p.2 (List.of_mem_zip hp).2)
  refine (hC.bind hnew hscope hparams).andThen fun _ t ht hst _ => ?_
  exact .pure ht ⟨hC.frame_mono hst hscope, fun stmt hmem => hC.stmt_mono hst (hbody stmt hmem)⟩

theorem enter_ends (hC : C.IsKept host) (hcall : C.Calls call) {c : Closure} {args : List Value}
    (hs : C.store s.store) (hc : C.value s.store (.function c))
    (hargs : ∀ v ∈ args, C.value s.store v) : C.Ends C.value (Run.enter call c args) s := by
  by_cases hlength : args.length = c.params.length
  · rw [Run.enter_eq call hlength]
    refine (hC.openScope_ends hs hc hargs).andThen fun scope t ht _ hscope => ?_
    exact runAll hC hcall ht hscope.1 hscope.2 (hC.null _)
  · rw [Run.enter, if_neg hlength]
    exact .throw hs (hC.fault (by simp))

theorem apply (hC : C.IsKept host) (hcall : C.Calls call) : C.Calls (Run.apply host call) := by
  intro v args f s hs hv hargs hf
  cases v with
  | native n =>
    refine (Ends.emit _ hs).andThen fun _ t ht hst _ => ?_
    exact hC.native n ht (hC.frame_mono hst hf) fun w hw => hC.value_mono hst (hargs w hw)
  | function c => exact hC.enter_ends hcall hs hv hargs
  | null | number | bool | object => exact .throw hs (hC.fault (by simp))

theorem calls (hC : C.IsKept host) (depth : Nat) : C.Calls (Run.call host depth) := by
  induction depth with
  | zero => exact fun _ _ _ _ hs _ _ _ => .throw hs hC.tooDeep
  | succ depth ih => exact hC.apply ih

end IsKept

/-! ## Builtin natives -/

/-- Builtin natives leave the store alone and end with null, a number or a fault of their own, which
every contract allows. -/
theorem IsLawful.isKept_builtin (hC : C.IsLawful) : C.IsKept Builtin.host where
  toIsLawful := hC
  native n args f s hs _ _ := by
    obtain ⟨text, h⟩ | ⟨v, hv, h⟩ | ⟨e, he, h⟩ | h := perform_builtin_cases n args f
    · rw [h]
      exact (Ends.write text hs (hC.fault (by simp))).andThen fun _ t ht _ _ =>
        .pure ht (hC.null _)
    · rw [h]
      obtain rfl | ⟨x, rfl⟩ := hv
      · exact .pure hs (hC.null _)
      · exact .pure hs (hC.number _ x)
    · rw [h]
      exact .throw hs (hC.fault he)
    · rw [h]
      refine (Ends.readClock hs).andThen fun now t ht _ _ => ?_
      refine .ofExcept ht (fun v hv => ?_) fun e he => hC.fault ?_
      · obtain ⟨x, rfl⟩ := exists_number_of_seconds hv
        exact hC.number _ x
      · rw [eq_clockBeforeEpoch_of_seconds he]
        exact nofun

end Contract

end ScopeScript
