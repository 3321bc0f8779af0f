import ScopeScript.Proofs.Number.Classes
import ScopeScript.Proofs.Value.Canonical

/-!
# What the JSON tree of a value shows

The JSON tree of a value tells it from all others, up to a few things: it shows NaN and the infinite
numbers as null, of functions only their names and parameters, and of natives only their names
(`Value.toJson_eq_iff`).  The tree of a function is an object, but none that an object has: no value
in an object is shown as an array, which the parameters are.
-/

namespace ScopeScript

open Value

/-! ## Values with the same view -/

/-- Null and the numbers that JSON has no text for. -/
inductive Value.IsBlank : Value → Prop
  | null : IsBlank .null
  | nan {x : Float} (hx : x.isNaN = true) : IsBlank (.number x)
  | infinite {x : Float} (hx : x.isInf = true) : IsBlank (.number x)

mutual

/-- The values are the same apart from what JSON does not show. -/
inductive Value.SameView : Value → Value → Prop
  | blank {v w : Value} (hv : v.IsBlank) (hw : w.IsBlank) : Value.SameView v w
  | number {x y : Float} (hnan : x.isNaN = false) (hinf : x.isInf = false)
      (hbits : x.toBits = y.toBits) : Value.SameView (.number x) (.number y)
  | bool (b : Bool) : Value.SameView (.bool b) (.bool b)
  | object {fs gs : Fields} (h : Fields.SameView fs gs) : Value.SameView (.object fs) (.object gs)
  | function {c d : Closure} (hname : c.name = d.name) (hparams : c.params = d.params) :
      Value.SameView (.function c) (.function d)
  | native {m n : Native} (hname : m.name = n.name) : Value.SameView (.native m) (.native n)

/-- The entries have the same keys and values with the same views. -/
inductive Fields.SameView : Fields → Fields → Prop
  | nil : Fields.SameView [] []
  | cons (key : String) {v w : Value} {fs gs : Fields} (h : Value.SameView v w)
      (hrest : Fields.SameView fs gs) : Fields.SameView ((key, v) :: fs) ((key, w) :: gs)

end

/-! ## Values by their trees -/

namespace Value

variable {v : Value}

theorem isBlank_number_iff {x : Float} : (number x).IsBlank ↔ Number.isFinite x = false := by
  rw [Number.isFinite_eq_false_iff]
  constructor
  · rintro (_ | hx | hx)
    · exact .inl hx
    · exact .inr hx
  · rintro (hx | hx)
    · exact .nan hx
    · exact .infinite hx

theorem toJson_number_of_finite {x : Float} (hx : Number.isFinite x = true) :
    (number x).toJson = .number x := by
  rw [toJson, if_pos hx]

theorem toJson_number_of_not_finite {x : Float} (hx : Number.isFinite x = false) :
    (number x).toJson = .null := by
  rw [toJson, hx]
  rfl

theorem toJson_eq_null_iff : v.toJson = .null ↔ v.IsBlank := by
  cases v with
  | null => exact iff_of_true rfl .null
  | number x =>
    rw [isBlank_number_iff]
    cases hx : Number.isFinite x with
    | true => simp [toJson_number_of_finite hx]
    | false => simp [toJson_number_of_not_finite hx]
  | bool | object | function | native => exact iff_of_false nofun nofun

theorem toJson_eq_number_iff {x : Float} :
    v.toJson = .number x ↔ Number.isFinite x = true ∧ v = .number x := by
  cases v with
  | number y =>
    cases hy : Number.isFinite y with
    | true =>
      rw [toJson_number_of_finite hy, Json.number.injEq, number.injEq]
      exact ⟨fun h => ⟨h ▸ hy, h⟩, fun h => h.2⟩
    | false =>
      rw [toJson_number_of_not_finite hy]
      refine iff_of_false nofun fun ⟨hx, h⟩ => ?_
      rw [number.inj h, hx] at hy
      cases hy
  | null | bool | object | function | native => exact iff_of_false nofun nofun

theorem toJson_eq_bool_iff {b : Bool} : v.toJson = .bool b ↔ v = .bool b := by
  cases v with
  | bool a => simp [toJson]
  | number x => cases hx : Number.isFinite x <;> simp [toJson, hx]
  | null | object | function | native => exact iff_of_false nofun nofun

theorem toJson_eq_string_iff {text : String} :
    v.toJson = .string text ↔ ∃ n, v = .native n ∧ "[native fn " ++ n.name ++ "]" = text := by
  cases v with
  | native n => simp [toJson]
  | number x => cases hx : Number.isFinite x <;> simp [toJson, hx]
  | null | bool | object | function => simp [toJson]

/-- The values that are shown as objects are the objects and the functions. -/
theorem toJson_eq_object_iff {members : List (String × Json)} :
    v.toJson = .object members ↔
      (∃ fields, v = .object fields ∧ fieldsToJson fields = members) ∨
        ∃ c, v = .function c ∧
          [("fn", .string c.name), ("params", .ofStrings c.params)] = members := by
  cases v with
  | object fields => simp [toJson]
  | function c => simp [toJson]
  | number x => cases hx : Number.isFinite x <;> simp [toJson, hx]
  | null | bool | native => simp [toJson]

theorem toJson_ne_array {elements : List Json} : v.toJson ≠ .array elements := by
  cases v with
  | number x => cases hx : Number.isFinite x <;> simp [toJson, hx]
  | null | bool | object | function | native => exact nofun

end Value

theorem fieldsToJson_eq_map (fields : Fields) :
    fieldsToJson fields = fields.map fun field => (field.1, field.2.toJson) := by
  induction fields with
  | nil => rfl
  | cons field rest ih => rw [fieldsToJson, ih, List.map_cons]

/-- No entries are shown as a function is, whatever their keys. -/
theorem fieldsToJson_ne_function (fields : Fields) (c : Closure) :
    fieldsToJson fields ≠ [("fn", .string c.name), ("params", .ofStrings c.params)] := by
  intro h
  rw [fieldsToJson_eq_map] at h
  have hparams : ("params", Json.ofStrings c.params) ∈
      fields.map fun field => (field.1, field.2.toJson) := by
    rw [h]
    exact List.mem_cons_of_mem _ List.mem_cons_self
  obtain ⟨field, -, hfield⟩ := List.mem_map.1 hparams
  exact Value.toJson_ne_array (congrArg Prod.snd hfield)

theorem Json.ofStrings_inj {xs ys : List String} : ofStrings xs = ofStrings ys ↔ xs = ys := by
  rw [ofStrings, ofStrings, array.injEq]
  exact (List.map_injective_iff.2 fun _ _ => string.inj).eq_iff

/-! ## The same tree, the same view -/

mutual

theorem Value.SameView.toJson_eq {v w : Value} : v.SameView w → v.toJson = w.toJson
  | .blank hv hw => by rw [toJson_eq_null_iff.2 hv, toJson_eq_null_iff.2 hw]
  | .number _ _ hbits => by rw [Float.toBits_inj.1 hbits]
  | .bool _ => rfl
  | .object h => congrArg Json.object (Fields.SameView.toJson_eq h)
  | .function hname hparams => by rw [toJson, toJson, hname, hparams]
  | .native hname => by rw [toJson, toJson, hname]

theorem Fields.SameView.toJson_eq {fs gs : Fields} :
    fs.SameView gs → fieldsToJson fs = fieldsToJson gs
  | .nil => rfl
  | .cons _ h hrest => by
    rw [fieldsToJson, fieldsToJson, Value.SameView.toJson_eq h, Fields.SameView.toJson_eq hrest]

end

mutual

theorem Value.sameView_of_toJson_eq : (v w : Value) → v.toJson = w.toJson → v.SameView w
  | .null, w, h => .blank .null (toJson_eq_null_iff.1 h.symm)
  | .number x, w, h => by
    cases hx : Number.isFinite x with
    | true =>
      rw [toJson_number_of_finite hx] at h
      obtain ⟨-, rfl⟩ := toJson_eq_number_iff.1 h.symm
      obtain ⟨hnan, hinf⟩ := Number.isFinite_eq_true_iff.1 hx
      exact .number hnan hinf rfl
    | false =>
      rw [toJson_number_of_not_finite hx] at h
      exact .blank (isBlank_number_iff.2 hx) (toJson_eq_null_iff.1 h.symm)
  | .bool b, w, h => by
    obtain rfl := toJson_eq_bool_iff.1 h.symm
    exact .bool b
  | .object fs, w, h => by
    obtain ⟨gs, rfl, hgs⟩ | ⟨c, rfl, hc⟩ := toJson_eq_object_iff.1 h.symm
    · exact .object (Fields.sameView_of_toJson_eq fs gs hgs.symm)
    · exact absurd hc.symm (fieldsToJson_ne_function fs c)
  | .function c, w, h => by
    obtain ⟨gs, rfl, hgs⟩ | ⟨d, rfl, hd⟩ := toJson_eq_object_iff.1 h.symm
    · exact absurd hgs (fieldsToJson_ne_function gs c)
    · simp only [List.cons.injEq, Prod.mk.injEq, Json.string.injEq, Json.ofStrings_inj,
        true_and, and_true] at hd
      exact .function hd.1.symm hd.2.symm
  | .native n, w, h => by
    obtain ⟨m, rfl, hm⟩ := toJson_eq_string_iff.1 h.symm
    exact .native (String.append_right_inj _ |>.1 (String.append_left_inj _ |>.1 hm)).symm

theorem Fields.sameView_of_toJson_eq : (fs gs : Fields) → fieldsToJson fs = fieldsToJson gs →
    fs.SameView gs
  | [], [], _ => .nil
  | (key, v) :: fs, (key', w) :: gs, h => by
    rw [fieldsToJson, fieldsToJson, List.cons.injEq, Prod.mk.injEq] at h
    obtain ⟨⟨rfl, hvw⟩, hrest⟩ := h
    exact .cons key (Value.sameView_of_toJson_eq v w hvw) (Fields.sameView_of_toJson_eq fs gs hrest)

end

theorem Fields.sameView_iff_forall₂ {fs gs : Fields} :
    fs.SameView gs ↔ List.Forall₂ (fun f g => f.1 = g.1 ∧ f.2.SameView g.2) fs gs := by
  constructor
  · intro h
    induction fs generalizing gs with
    | nil =>
      cases h
      exact .nil
    | cons f fs ih =>
      cases h with
      | cons key h hrest => exact .cons ⟨rfl, h⟩ (ih hrest)
  · intro h
    induction h with
    | nil => exact .nil
    | @cons f g fs gs hfg _ ih =>
      obtain ⟨key, v⟩ := f
      obtain ⟨key', w⟩ := g
      obtain ⟨rfl, hvw⟩ := hfg
      exact .cons key hvw ih

/-- As maps, objects have the same view if they have the same keys, and values with the same view
there. -/
theorem Fields.Sorted.sameView_iff {fs gs : Fields} (hfs : fs.Sorted) (hgs : gs.Sorted) :
    (Value.object fs).SameView (.object gs) ↔
      ∀ key, Option.Rel Value.SameView (fs.get? key) (gs.get? key) := by
  constructor
  · intro h
    cases h with
    | blank hv _ => nomatch hv
    | object h => exact Fields.rel_get?_of_forall₂ (Fields.sameView_iff_forall₂.1 h)
  · exact fun h => .object (Fields.sameView_iff_forall₂.2 (hfs.forall₂ hgs h))

namespace Value

/-- Values have the same JSON tree just if they have the same view.  For objects, which are maps
with their keys in order, this means that they have the same keys, and values with the same view
there.  No object, whatever its keys, has the tree of a function or of a native, and no function has
that of a native. -/
theorem toJson_eq_iff (v w : Value) :
    (v.toJson = w.toJson ↔ v.SameView w) ∧
      (∀ fs gs : Fields, fs.Sorted → gs.Sorted →
        ((object fs).toJson = (object gs).toJson ↔
          ∀ key, Option.Rel SameView (fs.get? key) (gs.get? key))) ∧
      ∀ (fields : Fields) (c : Closure) (n : Native),
        (object fields).toJson ≠ (function c).toJson ∧
          (object fields).toJson ≠ (native n).toJson ∧
          (function c).toJson ≠ (native n).toJson := by
  have hview (v w : Value) : v.toJson = w.toJson ↔ v.SameView w :=
    ⟨sameView_of_toJson_eq v w, SameView.toJson_eq⟩
  refine ⟨hview v w, fun fs gs hfs hgs => (hview _ _).trans (hfs.sameView_iff hgs),
    fun fields c n => ⟨?_, nofun, nofun⟩⟩
  exact fun h => fieldsToJson_ne_function fields c (Json.object.inj h)

/-- NaN and infinity in the places of null, at two depths, and an object with the keys that
functions are shown with. -/
theorem toJson_eq_iff_nested :
    let fs : Fields := [("a", .null), ("o", .object [("x", .number (0 / 0))])]
    let gs : Fields := [("a", .number (1 / 0)), ("o", .object [("x", .null)])]
    let likeFunction : Fields := [("fn", .null), ("params", .object [])]
    fs.Sorted ∧ gs.Sorted ∧ (object fs).toJson = (object gs).toJson ∧
      (∀ key, Option.Rel SameView (fs.get? key) (gs.get? key)) ∧
      (object likeFunction).toJson ≠ (function ⟨0, "f", [], [], 0⟩).toJson := by
  intro fs gs likeFunction
  have hfs : fs.Sorted := by unfold Fields.Sorted; decide
  have hgs : gs.Sorted := by unfold Fields.Sorted; decide
  have hinner : (object [("x", .number (0 / 0))]).SameView (.object [("x", .null)]) :=
    .object (.cons "x" (.blank (.nan (by decide)) .null) .nil)
  have hview : (object fs).SameView (.object gs) :=
    .object (.cons "a" (.blank .null (.infinite (by decide))) (.cons "o" hinner .nil))
  have htree := (toJson_eq_iff (.object fs) (.object gs)).1.2 hview
  obtain ⟨-, hmaps, hshapes⟩ := toJson_eq_iff (.object fs) (.object gs)
  exact ⟨hfs, hgs, htree, (hmaps fs gs hfs hgs).1 htree, (hshapes likeFunction _ ⟨0, "n"⟩).1⟩

end Value

end ScopeScript
