import ScopeScript.Proofs.Run.Contract
import ScopeScript.Proofs.Store.Holding
import ScopeScript.Proofs.Syntax.Writable

/-!
# Runs of written programs

A program that was read from a text is writable, and so are the bodies of the functions in it.  Runs
of such programs rely on that and maintain it: in a store of functions with writable bodies, and of
objects whose keys are names, they make only functions and objects of the same sort
(`Contract.isLawful_written`), and no run comes upon a property behind a point that is no name.
-/

namespace ScopeScript

/-! ## Keys -/

mutual

/-- The keys of the objects in a value, at any depth. -/
def Value.keys : Value → List String
  | .object fields => Fields.keys fields
  | _ => []

/-- The keys of an object and of the objects in it. -/
def Fields.keys : Fields → List String
  | [] => []
  | (key, v) :: rest => key :: (v.keys ++ Fields.keys rest)

end

namespace Fields

theorem keys_insert (key : String) (v : Value) (fields : Fields) :
    keys (insert key v fields) ⊆ key :: (v.keys ++ keys fields) := by
  fun_induction insert key v fields with
  | case1 => exact List.Subset.refl _
  | case2 => exact List.Subset.refl _
  | case3 w rest hlt =>
    intro k hk
    simp only [keys, List.mem_cons, List.mem_append] at hk ⊢
    exact hk.imp id (Or.imp id fun hk => .inr (.inr hk))
  | case4 l w rest hlt hne ih =>
    intro k hk
    simp only [keys, List.mem_cons, List.mem_append] at hk ⊢
    obtain rfl | hk | hk := hk
    · exact .inr (.inr (.inl rfl))
    · exact .inr (.inr (.inr (.inl hk)))
    · have hrest := ih hk
      simp only [List.mem_cons, List.mem_append] at hrest
      exact hrest.imp id (Or.imp id fun hk => .inr (.inr hk))

theorem keys_property (fields : Fields) (key : String) :
    (property fields key).keys ⊆ keys fields := by
  induction fields with
  | nil => exact List.nil_subset _
  | cons entry rest ih =>
    obtain ⟨k, v⟩ := entry
    rw [property, get?_cons, keys]
    split
    · exact List.subset_cons_of_subset _ (List.subset_append_left _ _)
    · exact List.subset_cons_of_subset _ (List.subset_append_of_subset_right _ ih)

/-- A property that is there is named by one of the keys. -/
theorem property_eq_null {fields : Fields} {key : String} (h : key ∉ keys fields) :
    fields.property key = .null := by
  induction fields with
  | nil => rfl
  | cons entry rest ih =>
    obtain ⟨k, v⟩ := entry
    simp only [keys, List.mem_cons, List.mem_append, not_or] at h
    rw [property, get?_cons, if_neg h.1]
    exact ih h.2.2

end Fields

/-! ## Values -/

/-- The functions in the value have writable bodies, and the keys of the objects in it are names. -/
structure Value.Written (v : Value) : Prop where
  bodies : ∀ c ∈ v.closures, ∀ stmt ∈ c.body, stmt.Writable
  keys : ∀ key ∈ v.keys, Text.IsName key

theorem Value.Written.of_nil {v : Value} (hclosures : v.closures = []) (hkeys : v.keys = []) :
    v.Written := by
  constructor
  · simp [hclosures]
  · simp [hkeys]

theorem Value.written_function {c : Closure} (h : ∀ stmt ∈ c.body, stmt.Writable) :
    (Value.function c).Written := by
  refine ⟨fun d hd => ?_, fun key hkey => nomatch hkey⟩
  obtain rfl := List.mem_singleton.1 hd
  exact h

theorem Value.Written.insert {fields : Fields} {v : Value} {key : String}
    (hfields : (Value.object fields).Written) (hv : v.Written) (hkey : Text.IsName key) :
    (Value.object (fields.insert key v)).Written where
  bodies c hc := by
    obtain hc | hc := List.mem_append.1 (Fields.closures_insert key v fields hc)
    · exact hv.bodies c hc
    · exact hfields.bodies c hc
  keys k hk := by
    obtain rfl | hk := List.mem_cons.1 (Fields.keys_insert key v fields hk)
    · exact hkey
    · exact (List.mem_append.1 hk).elim (hv.keys k) (hfields.keys k)

theorem Value.Written.property {fields : Fields} (h : (Value.object fields).Written)
    (key : String) : (fields.property key).Written where
  bodies c hc := h.bodies c (fields.closures_property key hc)
  keys k hk := h.keys k (fields.keys_property key hk)

/-! ## Stores -/

/-- All values that frames bind names to are such values. -/
def Store.Written (s : Store) : Prop :=
  ∀ (f : FrameId) (frame : Frame), s.frames[f]? = some frame →
    ∀ b ∈ frame.bindings, b.2.Written

theorem Store.Written.holds {s : Store} (h : s.Written) : s.Holds Value.Written := h

theorem Store.Refusal.ne_propertyNotAName {x : String} {h : Halt} (hx : Refusal x h) :
    h ≠ .fault .propertyNotAName := by
  cases hx with
  | missingFrame | unknown | constant | redefined => simp

/-! ## Parts of writable trees -/

theorem Expr.Writable.parts {e : Expr} (h : e.Writable) : ∀ d ∈ e.parts, d.Writable := by
  cases h with
  | number | name => exact fun _ hd => nomatch hd
  | assign _ hvalue => exact List.forall_mem_singleton.2 hvalue
  | binary hlhs hrhs => simpa [Expr.parts] using ⟨hlhs, hrhs⟩
  | call hcallee harguments => exact List.forall_mem_cons.2 ⟨hcallee, harguments⟩
  | dot hobject _ => exact List.forall_mem_singleton.2 hobject
  | index hobject hkey => simpa [Expr.parts] using ⟨hobject, hkey⟩
  | object _ hvalues =>
    intro d hd
    obtain ⟨p, hp, hd⟩ := List.mem_filterMap.1 hd
    exact hvalues p hp d hd

/-! ## The contract -/

/-- Writable code is run on values of written programs, and comes upon no property behind a point
that is no name. -/
def Contract.written : Contract where
  store := Store.Written
  value _ := Value.Written
  frame _ _ := True
  expr := Expr.Writable
  stmt _ _ := Stmt.Writable
  halt h := h ≠ .fault .propertyNotAName

theorem Contract.isLawful_written : written.IsLawful where
  value_mono _ h := h
  frame_mono _ h := h
  stmt_mono _ h := h
  null _ := .of_nil rfl rfl
  number _ _ := .of_nil rfl rfl
  object _ := .of_nil rfl rfl
  insert he hp hfields hv := by
    cases he with
    | object hkeys _ => exact hfields.insert hv (hkeys _ hp)
  property h key := h.property key
  parts he := he.parts
  dot he := by
    cases he with
    | dot _ _ => exact .inl ⟨_, rfl⟩
  init h := by
    cases h with
    | declare _ hinit => exact hinit
  statement h := by
    cases h with
    | expr he => exact he
  fault hf heq := hf (Halt.fault.inj heq)
  tooDeep := by simp [written]
  lookup hs _ _ :=
    ⟨fun _ => hs.holds.lookup, fun _ hh => (Store.refusal_of_lookup hh).ne_propertyNotAName⟩
  assign hs _ hv _ :=
    ⟨fun _ => hs.holds.assign hv, fun _ hh => (Store.refusal_of_assign hh).ne_propertyNotAName⟩
  declare hs _ hv _ _ :=
    ⟨fun _ => hs.holds.declare hv, fun _ hh => (Store.refusal_of_declare hh).ne_propertyNotAName⟩
  define := by
    intro s f x params body hs _ hstmt v
    have hv : v.Written := by
      cases hstmt with
      | define _ _ hbody => exact Value.written_function hbody
    have hnew : s.newClosure.2.Written := hs
    refine ⟨hnew, fun t ht => ⟨hnew.holds.declare hv ht, hv⟩, fun h hh => ?_⟩
    exact (Store.refusal_of_declare hh).ne_propertyNotAName
  enter hs hc := ⟨hs.holds.newFrame _, trivial, hc.bodies _ List.mem_cons_self⟩

end ScopeScript
