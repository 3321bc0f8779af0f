import ScopeScript.Run.Eval

/-!
# Renaming frames in values

A value refers to frames through the functions in it.  Numbering the frames and the functions anew
changes nothing that a program can see: neither the text of a value, nor what operators give for
it, nor its properties.
-/

namespace ScopeScript

/-- New numbers for frames and for identities of functions. -/
structure Renaming where
  frame : FrameId → FrameId
  identity : Nat → Nat

/-- The function with its frame and its identity renamed. -/
def Closure.rename (r : Renaming) (c : Closure) : Closure :=
  { c with identity := r.identity c.identity, frame := r.frame c.frame }

mutual

/-- The functions in a value, also those in the objects in it. -/
def Value.closures : Value → List Closure
  | .object fields => Fields.closures fields
  | .function c => [c]
  | _ => []

/-- The functions in the values of an object. -/
def Fields.closures : Fields → List Closure
  | [] => []
  | (_, v) :: rest => v.closures ++ Fields.closures rest

end

mutual

/-- The value with all functions in it renamed. -/
def Value.rename (r : Renaming) : Value → Value
  | .null => .null
  | .number x => .number x
  | .bool b => .bool b
  | .object fields => .object (Fields.rename r fields)
  | .function c => .function (c.rename r)
  | .native n => .native n

/-- The entries with all functions in them renamed. -/
def Fields.rename (r : Renaming) : Fields → Fields
  | [] => []
  | (key, v) :: rest => (key, v.rename r) :: Fields.rename r rest

end

variable (r : Renaming)

/-! ## What a renaming leaves alone -/

mutual

theorem Value.display_rename : (v : Value) → (v.rename r).display = v.display
  | .null | .number _ | .bool _ | .function _ | .native _ => rfl
  | .object [] => rfl
  | .object ((key, v) :: rest) => by
    have hfields := displayFields_rename ((key, v) :: rest)
    rw [Fields.rename] at hfields
    rw [Value.rename, Fields.rename, Value.display, hfields, Value.display]

theorem displayFields_rename : (fields : Fields) →
    displayFields (Fields.rename r fields) = displayFields fields
  | [] => rfl
  | (key, v) :: rest => by
    rw [Fields.rename, displayFields, Value.display_rename v, displayFields_rename rest,
      displayFields]

end

theorem Value.map_display_rename (vs : List Value) :
    (vs.map (Value.rename r)).map Value.display = vs.map Value.display := by
  rw [List.map_map]
  exact List.map_congr_left fun v _ => v.display_rename r

mutual

theorem Value.rename_eq_self : (v : Value) → (∀ c ∈ v.closures, c.rename r = c) → v.rename r = v
  | .null, _ | .number _, _ | .bool _, _ | .native _, _ => rfl
  | .object fields, h => by
    rw [Value.rename, Fields.rename_eq_self fields (by simpa only [Value.closures] using h)]
  | .function c, h => by
    rw [Value.rename, h c (by simp [Value.closures])]

theorem Fields.rename_eq_self : (fields : Fields) →
    (∀ c ∈ Fields.closures fields, c.rename r = c) → Fields.rename r fields = fields
  | [], _ => rfl
  | (key, v) :: rest, h => by
    simp only [Fields.closures, List.mem_append] at h
    rw [Fields.rename, Value.rename_eq_self v fun c hc => h c (.inl hc),
      Fields.rename_eq_self rest fun c hc => h c (.inr hc)]

end

/-! ## Entries -/

namespace Fields

theorem get?_rename (fields : Fields) (key : String) :
    get? (rename r fields) key = (get? fields key).map (Value.rename r) := by
  induction fields with
  | nil => rfl
  | cons entry rest ih =>
    obtain ⟨k, v⟩ := entry
    rw [rename, get?_cons, get?_cons, ih]
    split
    · rfl
    · rfl

theorem insert_rename (key : String) (v : Value) (fields : Fields) :
    insert key (v.rename r) (rename r fields) = rename r (insert key v fields) := by
  fun_induction insert key v fields with
  | case1 => rfl
  | case2 k w rest hlt => rw [rename, insert, if_pos hlt, rename, rename]
  | case3 w rest hlt => rw [rename, insert, if_neg hlt, if_pos rfl, rename]
  | case4 k w rest hlt hne ih => rw [rename, insert, if_neg hlt, if_neg hne, ih, rename]

theorem property_rename (fields : Fields) (key : String) :
    property (rename r fields) key = (property fields key).rename r := by
  rw [property, get?_rename, property]
  cases get? fields key with
  | none => rfl
  | some v => rfl

theorem closures_property (fields : Fields) (key : String) :
    (property fields key).closures ⊆ closures fields := by
  induction fields with
  | nil => exact List.nil_subset _
  | cons entry rest ih =>
    obtain ⟨k, v⟩ := entry
    rw [property, get?_cons, closures]
    split
    · exact List.subset_append_left _ _
    · exact List.subset_append_of_subset_right _ ih

theorem closures_insert (key : String) (v : Value) (fields : Fields) :
    closures (insert key v fields) ⊆ v.closures ++ closures fields := by
  fun_induction insert key v fields with
  | case1 => exact List.Subset.refl _
  | case2 => exact List.Subset.refl _
  | case3 w rest hlt =>
    intro c hc
    simp only [closures, List.mem_append] at hc ⊢
    exact hc.imp id .inr
  | case4 k w rest hlt hne ih =>
    intro c hc
    simp only [closures, List.mem_append] at hc ⊢
    obtain hc | hc := hc
    · exact .inr (.inl hc)
    · exact (List.mem_append.1 (ih hc)).imp id .inr

end Fields

/-! ## Operators and properties -/

theorem Operator.apply_rename (operator : Operator) (v w : Value) :
    operator.apply (v.rename r) (w.rename r) = operator.apply v w := by
  cases v <;> cases w <;> rfl

theorem Operator.exists_number_of_apply {operator : Operator} {v w u : Value}
    (h : operator.apply v w = .ok u) : ∃ x, u = .number x := by
  unfold Operator.apply at h
  split at h
  · rename_i x y
    cases hxy : operator.compute x y with
    | error e => simp [hxy, Except.map] at h
    | ok z =>
      rw [hxy] at h
      exact ⟨z, (Except.ok.inj h).symm⟩
  · cases h

theorem Value.fields_rename (v : Value) : (v.rename r).fields = v.fields.map (Fields.rename r) := by
  cases v <;> rfl

theorem Value.propertyKey_rename (v : Value) : (v.rename r).propertyKey = v.propertyKey := by
  cases v <;> rfl

theorem Value.closures_of_fields {v : Value} {fields : Fields} (h : v.fields = .ok fields) :
    v.closures = Fields.closures fields := by
  cases v with
  | object fs =>
    obtain rfl := Except.ok.inj h
    rfl
  | null | number | bool | function | native => cases h

end ScopeScript
