import ScopeScript.Proofs.Run.Natives
import ScopeScript.Proofs.Store.Holding
import ScopeScript.Proofs.Value.Canonical

/-!
# Object literals

An object literal is evaluated entry by entry, in the order in which they are written, and of two
entries for one key the later one counts.  The object has its entries in the order of their keys, at
every level, since all values that a run meets are of that sort (`Contract.isKept_canonical`).  So
literals that give the same map, however they are written, give objects that nothing tells apart
(`Run.literals_canonical`).
-/

namespace ScopeScript

/-! ## Entries -/

/-- The expression that gives an entry its value. -/
def Property.expr : Property → Expr
  | .shorthand key => .name key
  | .keyed _ value => value

namespace Run

/-- Evaluates entries one after the other, each to its key and the value. -/
def evalEntries (call : Caller) (frame : FrameId) (properties : List Property) :
    Run (List (String × Value)) :=
  properties.mapM fun p => do return (p.key, ← p.expr.eval call frame)

variable {call : Caller} {f : FrameId} {s t : State}

theorem evalProperties_eq (call : Caller) (f : FrameId) (fields : Fields)
    (properties : List Property) :
    evalProperties call f fields properties = evalEntries call f properties >>= fun entries =>
      pure (entries.foldl (fun fields (key, v) => fields.insert key v) fields) := by
  induction properties generalizing fields with
  | nil => rfl
  | cons p rest ih =>
    have hrest (v : Value) : evalProperties call f (fields.insert p.key v) rest =
        evalEntries call f rest >>= fun entries => pure
          (((p.key, v) :: entries).foldl (fun fields (key, v) => fields.insert key v) fields) :=
      ih (fields.insert p.key v)
    cases p with
    | shorthand key =>
      simp only [evalProperties, evalEntries, List.mapM_cons, bind_assoc, pure_bind]
      exact bind_congr hrest
    | keyed key value =>
      simp only [evalProperties, evalEntries, List.mapM_cons, bind_assoc, pure_bind]
      exact bind_congr hrest

/-- All entries are evaluated, in the order in which they are written, before there is an object. -/
theorem eval_object (call : Caller) (f : FrameId) (properties : List Property) :
    (Expr.object properties).eval call f = evalEntries call f properties >>= fun entries =>
      pure (.object (Fields.ofList entries)) := by
  rw [Expr.eval, evalProperties_eq, bind_assoc]
  simp only [pure_bind, Fields.ofList]

theorem keys_of_evalEntries {properties : List Property} {entries : List (String × Value)}
    (h : (evalEntries call f properties).outcome s = .ok entries) :
    entries.map Prod.fst = properties.map Property.key := by
  induction properties generalizing s entries with
  | nil =>
    obtain rfl := Except.ok.inj h
    rfl
  | cons p rest ih =>
    simp only [evalEntries, List.mapM_cons, bind_assoc, pure_bind] at h
    obtain ⟨v, -, h⟩ := outcome_ok_of_bind h
    obtain ⟨entries', hrest, h⟩ := outcome_ok_of_bind h
    obtain rfl := Except.ok.inj h
    rw [List.map_cons, ih hrest, List.map_cons]

end Run

/-! ## Values in order -/

/-- All objects in the store have their entries in order. -/
def Store.Canonical (s : Store) : Prop := s.Holds Value.Canonical

/-- Runs meet and make only objects with their entries in order. -/
def Contract.canonical : Contract where
  store := Store.Canonical
  value _ := Value.Canonical
  frame _ _ := True
  expr _ := True
  stmt _ _ _ := True
  halt _ := True

namespace Contract

theorem isLawful_canonical : canonical.IsLawful where
  value_mono _ h := h
  frame_mono _ h := h
  stmt_mono _ h := h
  null _ := .null
  number _ := .number
  object _ := .object .nil nofun
  insert _ _ hfields hv := hfields.insert _ hv
  property h key := h.property key
  parts _ _ _ := trivial
  dot _ := .inr trivial
  init _ := trivial
  statement _ := trivial
  fault _ := trivial
  tooDeep := trivial
  lookup hs _ _ := ⟨fun _ => hs.lookup, fun _ _ => trivial⟩
  assign hs _ hv _ := ⟨fun _ => hs.assign hv, fun _ _ => trivial⟩
  declare hs _ hv _ _ := ⟨fun _ => hs.declare hv, fun _ _ => trivial⟩
  define := by
    intro s f x params body hs _ _ v
    have hnew : s.newClosure.2.Holds Value.Canonical := hs
    exact ⟨hnew, fun t ht => ⟨hnew.declare (.function _) ht, .function _⟩, fun _ _ => trivial⟩
  enter hs _ := ⟨hs.newFrame _, trivial, fun _ _ => trivial⟩

/-- The keys of an object are in order as its type demands, so natives hand on only such objects. -/
theorem isKept_canonical {host : Host} (hhost : host.HandsOn Value.Canonical) :
    canonical.IsKept host :=
  isLawful_canonical.isKept_of_handsOn (fun _ _ => Iff.rfl) (fun _ => trivial) hhost

end Contract

/-! ## Members -/

namespace Run

section Members

variable {call call' : Caller} {f f' : FrameId} {object object' key key' : Expr} {s t : State}
  {v : Value}

/-- What a property is depends only on the object. -/
theorem outcome_dot_congr (h : (object.eval call f).outcome s = .ok v)
    (h' : (object'.eval call' f').outcome t = .ok v) (x : String) :
    ((Expr.dot object (.name x)).eval call f).outcome s =
      ((Expr.dot object' (.name x)).eval call' f').outcome t := by
  rw [Expr.eval, Expr.eval, outcome_bind_of_ok h, outcome_bind_of_ok h']
  cases v <;> rfl

/-- What a computed property is depends only on the object and on what the key comes to. -/
theorem outcome_index_congr (h : (object.eval call f).outcome s = .ok v)
    (h' : (object'.eval call' f').outcome t = .ok v)
    (hkey : (key.eval call f).outcome ((object.eval call f).final s) =
      (key'.eval call' f').outcome ((object'.eval call' f').final t)) :
    ((Expr.index object key).eval call f).outcome s =
      ((Expr.index object' key').eval call' f').outcome t := by
  rw [Expr.eval, Expr.eval, outcome_bind_of_ok h, outcome_bind_of_ok h']
  cases v with
  | object fields =>
    have hfields (u : State) : (ofExcept (Value.object fields).fields).outcome u = .ok fields := rfl
    rw [outcome_bind_of_ok (hfields _), outcome_bind_of_ok (hfields _)]
    cases hk : (key.eval call f).outcome ((object.eval call f).final s) with
    | ok k =>
      rw [hk] at hkey
      refine (outcome_bind_of_ok hk).trans (Eq.trans ?_ (outcome_bind_of_ok hkey.symm).symm)
      cases k <;> rfl
    | error e =>
      rw [hk] at hkey
      exact (outcome_bind_of_error hk).trans (outcome_bind_of_error hkey.symm).symm
  | null | number | bool | function | native => rfl

end Members

/-- The entries of an object literal are evaluated in the order in which they are written, whether
or not there is a later one for the same key.  If all have values, the literal gives an object with
the keys that were written, in increasing order of code points as at all levels within it, and with
the value of the last entry for each key.  Two literals that give the same map give objects with the
same text, the same JSON tree, the same text for debugging and the same properties, wherever they
are asked for. -/
theorem literals_canonical {host host' : Host} (hhost : host.HandsOn Value.Canonical)
    (hhost' : host'.HandsOn Value.Canonical) (d d' : Nat) (f f' : FrameId) (ps qs : List Property)
    {s t : State} (hs : s.store.Canonical) (ht : t.store.Canonical) :
    let literal := (Expr.object ps).eval (call host d) f
    let literal' := (Expr.object qs).eval (call host' d') f'
    (literal = evalEntries (call host d) f ps >>= fun entries =>
        pure (.object (Fields.ofList entries))) ∧
      (∀ v, literal.outcome s = .ok v →
        ∃ (entries : List (String × Value)) (fields : Fields),
          (evalEntries (call host d) f ps).outcome s = .ok entries ∧
          entries.map Prod.fst = ps.map Property.key ∧ v = .object fields ∧ v.Canonical ∧
          (∀ key, key ∈ fields.map Prod.fst ↔ key ∈ ps.map Property.key) ∧
          ∀ key, Fields.get? fields key = entries.reverse.lookup key) ∧
      ∀ v w, literal.outcome s = .ok v → literal'.outcome t = .ok w → v.Same w →
        v.display = w.display ∧ v.toJson = w.toJson ∧ v.inspect = w.inspect ∧
        ∀ (c c' : Caller) (g g' : FrameId) (e e' : Expr) (s' t' : State),
          (e.eval c g).outcome s' = .ok v → (e'.eval c' g').outcome t' = .ok w →
            (∀ x, ((Expr.dot e (.name x)).eval c g).outcome s' =
              ((Expr.dot e' (.name x)).eval c' g').outcome t') ∧
            ∀ k k' : Expr, (k.eval c g).outcome ((e.eval c g).final s') =
                (k'.eval c' g').outcome ((e'.eval c' g').final t') →
              ((Expr.index e k).eval c g).outcome s' =
                ((Expr.index e' k').eval c' g').outcome t' := by
  intro literal literal'
  have hvalue {host : Host} (hhost : host.HandsOn Value.Canonical) (d : Nat) (f : FrameId)
      (ps : List Property) {s : State} (hs : s.store.Canonical) {v : Value}
      (hv : ((Expr.object ps).eval (call host d) f).outcome s = .ok v) : v.Canonical := by
    have hC := Contract.isKept_canonical hhost
    exact (hC.eval (hC.calls d) (.object ps) trivial hs trivial).value v hv
  refine ⟨eval_object _ _ _, fun v hv => ?_, fun v w hv hw hsame => ?_⟩
  · have hcanonical := hvalue hhost d f ps hs hv
    dsimp only [literal] at hv
    rw [eval_object] at hv
    obtain ⟨entries, hentries, hv⟩ := outcome_ok_of_bind hv
    obtain rfl := Except.ok.inj hv
    have hkeys := keys_of_evalEntries hentries
    refine ⟨entries, Fields.ofList entries, hentries, hkeys, rfl, hcanonical, fun key => ?_,
      Fields.get?_ofList entries⟩
    rw [Fields.mem_keys_ofList, hkeys]
  · obtain rfl := hsame.eq (hvalue hhost d f ps hs hv) (hvalue hhost' d' f' qs ht hw)
    refine ⟨rfl, rfl, rfl, fun c c' g g' e e' s' t' he he' => ⟨?_, fun k k' hk => ?_⟩⟩
    · exact outcome_dot_congr he he'
    · exact outcome_index_congr he he' hk

/-- Two literals with their entries in other orders, of which one has a key twice. -/
theorem literals_canonical_reordered :
    let ps : List Property := [.keyed "b" (.name "null"), .keyed "a" (.name "false"),
      .keyed "b" (.object [.keyed "y" (.name "true"), .shorthand "null"])]
    let qs : List Property :=
      [.keyed "b" (.object [.shorthand "null", .keyed "y" (.name "true")]),
        .keyed "a" (.name "false")]
    let s := State.ofStore Builtin.store none (.still ⟨0⟩)
    let literal := fun properties => (Expr.object properties).eval (call Builtin.host 0) 0
    Builtin.host.HandsOn Value.Canonical ∧ s.store.Canonical ∧
      ∃ v w, (literal ps).outcome s = .ok v ∧ (literal qs).outcome s = .ok w ∧ v.Same w ∧
        v.Canonical ∧ v.display = w.display ∧ v.toJson = w.toJson ∧ v.inspect = w.inspect ∧
        v.display = "\x7b a: false, b: \x7b null: null, y: true \x7d \x7d" := by
  intro ps qs s literal
  have hhost : Builtin.host.HandsOn Value.Canonical := Builtin.handsOn_host .null .number
  have hs : s.store.Canonical := Store.holds_builtin .null .bool .native
  obtain ⟨-, hobject, hsame⟩ := literals_canonical hhost hhost 0 0 0 0 ps qs hs hs
  let v : Value := .object [("a", .bool false), ("b", .object [("null", .null), ("y", .bool true)])]
  have hps : (literal ps).outcome s = .ok v := rfl
  have hqs : (literal qs).outcome s = .ok v := rfl
  obtain ⟨-, -, -, -, -, hcanonical, -⟩ := hobject v hps
  obtain ⟨hdisplay, hjson, hinspect, -⟩ := hsame v v hps hqs (.refl v)
  exact ⟨hhost, hs, v, v, hps, hqs, .refl v, hcanonical, hdisplay, hjson, hinspect, rfl⟩

end Run

end ScopeScript
