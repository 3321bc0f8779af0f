import Mathlib.Data.List.Forall2
import ScopeScript.Run.Eval

/-!
# Objects as maps

The entries of an object stand in strictly increasing order of their keys, and so do those of the
objects in it.  Adding entries keeps this order, whatever the order is in which they are added.  So
there is one list of entries for each map from keys to values, and values that are the same, with
objects taken as maps, are equal (`Value.Same.eq`).
-/

namespace ScopeScript

namespace Fields

variable {fields fs gs : Fields} {key : String} {v w : Value}

/-! ## Entries in order -/

/-- The keys are in strictly increasing order. -/
def Sorted (fields : Fields) : Prop := fields.Pairwise (·.1 < ·.1)

theorem mem_of_get? (h : fields.get? key = some v) : (key, v) ∈ fields := by
  obtain ⟨before, after, rfl, -⟩ := List.lookup_eq_some_iff.1 h
  exact List.mem_append_right _ List.mem_cons_self

theorem isSome_lookup_iff (entries : List (String × Value)) (key : String) :
    (entries.lookup key).isSome = true ↔ key ∈ entries.map Prod.fst := by
  simp only [List.lookup_isSome_iff, List.mem_map, beq_iff_eq, @eq_comm _ key]

/-- A key that is less than those of all entries is not bound. -/
theorem get?_eq_none_of_lt (h : ∀ field ∈ fields, key < field.1) : fields.get? key = none := by
  refine List.lookup_eq_none_iff.2 fun field hfield => ?_
  have hne : key ≠ field.1 := fun heq => String.lt_irrefl key (heq ▸ h field hfield)
  simpa using hne

theorem mem_insert {field : String × Value} (h : field ∈ fields.insert key v) :
    field = (key, v) ∨ field ∈ fields := by
  fun_induction insert key v fields with
  | case1 => exact .inl (List.mem_singleton.1 h)
  | case2 k w rest hlt => exact List.mem_cons.1 h
  | case3 w rest hlt => exact (List.mem_cons.1 h).imp id (List.mem_cons_of_mem _)
  | case4 k w rest hlt hne ih =>
    obtain rfl | h := List.mem_cons.1 h
    · exact .inr List.mem_cons_self
    · exact (ih h).imp id (List.mem_cons_of_mem _)

theorem Sorted.insert (h : fields.Sorted) (key : String) (v : Value) :
    (fields.insert key v).Sorted := by
  fun_induction Fields.insert key v fields with
  | case1 => exact List.pairwise_singleton _ _
  | case2 k w rest hlt =>
    obtain ⟨hk, -⟩ := List.pairwise_cons.1 h
    refine List.pairwise_cons.2 ⟨fun field hfield => ?_, h⟩
    obtain rfl | hfield := List.mem_cons.1 hfield
    · exact hlt
    · exact String.lt_trans hlt (hk field hfield)
  | case3 w rest hlt => exact List.pairwise_cons.2 (List.pairwise_cons.1 h)
  | case4 k w rest hlt hne ih =>
    obtain ⟨hk, hrest⟩ := List.pairwise_cons.1 h
    refine List.pairwise_cons.2 ⟨fun field hfield => ?_, ih hrest⟩
    obtain rfl | hfield := mem_insert hfield
    · have hle : k ≤ key := String.not_lt.1 hlt
      exact Classical.byContradiction fun hnot =>
        hne (String.le_antisymm (String.not_lt.1 hnot) hle)
    · exact hk field hfield

/-! ## Entries one after the other -/

theorem get?_foldl_insert (entries : List (String × Value)) (fields : Fields) (key : String) :
    (entries.foldl (fun fields (key, v) => fields.insert key v) fields).get? key =
      (entries.reverse.lookup key).or (fields.get? key) := by
  induction entries generalizing fields with
  | nil => rfl
  | cons entry rest ih =>
    rw [List.foldl_cons, ih, get?_insert, List.reverse_cons, List.lookup_append, Option.or_assoc]
    congr 1
    have hlast : [entry].lookup key = if key = entry.1 then some entry.2 else none :=
      get?_cons entry.1 entry.2 [] key
    rw [hlast]
    split
    · rfl
    · rfl

/-- A key is bound to the value that the last entry for it has. -/
theorem get?_ofList (entries : List (String × Value)) (key : String) :
    (ofList entries).get? key = entries.reverse.lookup key := by
  rw [ofList, get?_foldl_insert, get?_nil, Option.or_none]

theorem mem_keys_ofList (entries : List (String × Value)) (key : String) :
    key ∈ (ofList entries).map Prod.fst ↔ key ∈ entries.map Prod.fst := by
  have hget := get?_ofList entries key
  rw [get?] at hget
  rw [← isSome_lookup_iff, hget, isSome_lookup_iff, List.map_reverse, List.mem_reverse]

/-! ## Entries as a map -/

/-- Related lists of entries give each key related values. -/
theorem rel_get?_of_forall₂ {R : Value → Value → Prop}
    (h : List.Forall₂ (fun f g => f.1 = g.1 ∧ R f.2 g.2) fs gs) (key : String) :
    Option.Rel R (fs.get? key) (gs.get? key) := by
  induction h with
  | nil => exact .none
  | @cons f g fs gs hfg _ ih =>
    obtain ⟨k, v⟩ := f
    obtain ⟨l, w⟩ := g
    obtain ⟨rfl, hvw⟩ := hfg
    rw [get?_cons, get?_cons]
    split
    · exact .some hvw
    · exact ih

theorem Sorted.eq_or_lt {k : String} (h : Sorted ((k, v) :: fields))
    (hkey : key ∈ ((k, v) :: fields).map Prod.fst) : key = k ∨ k < key := by
  obtain rfl | hkey := List.mem_cons.1 hkey
  · exact .inl rfl
  · obtain ⟨field, hfield, rfl⟩ := List.mem_map.1 hkey
    exact .inr ((List.pairwise_cons.1 h).1 field hfield)

theorem rel_iff {R : Value → Value → Prop} {a b : Option Value} :
    Option.Rel R a b ↔ a.isSome = b.isSome ∧ ∀ v w, a = some v → b = some w → R v w := by
  constructor
  · intro h
    cases h with
    | some hvw => exact ⟨rfl, fun v w hv hw => Option.some.inj hv ▸ Option.some.inj hw ▸ hvw⟩
    | none => exact ⟨rfl, nofun⟩
  · rintro ⟨hsome, hrel⟩
    cases a with
    | some v =>
      obtain ⟨w, rfl⟩ := Option.isSome_iff_exists.1 hsome.symm
      exact .some (hrel v w rfl rfl)
    | none =>
      cases b with
      | some w => cases hsome
      | none => exact .none

theorem mem_keys_iff_of_rel {R : Value → Value → Prop}
    (h : ∀ key, Option.Rel R (fs.get? key) (gs.get? key)) (key : String) :
    key ∈ fs.map Prod.fst ↔ key ∈ gs.map Prod.fst := by
  have hkey := (rel_iff.1 (h key)).1
  rw [get?, get?] at hkey
  rw [← isSome_lookup_iff, ← isSome_lookup_iff, hkey]

/-- Entries in order that give each key related values are related one by one. -/
theorem Sorted.forall₂ {R : Value → Value → Prop} (hfs : fs.Sorted) (hgs : gs.Sorted)
    (h : ∀ key, Option.Rel R (fs.get? key) (gs.get? key)) :
    List.Forall₂ (fun f g => f.1 = g.1 ∧ R f.2 g.2) fs gs := by
  have hkeys := mem_keys_iff_of_rel h
  induction fs generalizing gs with
  | nil =>
    obtain rfl : gs = [] := List.eq_nil_iff_forall_not_mem.2 fun g hg =>
      nomatch (hkeys g.1).2 (List.mem_map_of_mem hg)
    exact .nil
  | cons f fs ih =>
    obtain ⟨k, v⟩ := f
    cases gs with
    | nil => exact nomatch (hkeys k).1 List.mem_cons_self
    | cons g gs =>
      obtain ⟨l, w⟩ := g
      -- Each of the two first keys is among the keys of the other list, and so not the lesser one.
      obtain rfl : k = l := by
        obtain hkl | hlt := hgs.eq_or_lt ((hkeys k).1 List.mem_cons_self)
        · exact hkl
        · obtain hlk | hlt' := hfs.eq_or_lt ((hkeys l).2 List.mem_cons_self)
          · exact hlk.symm
          · exact absurd hlt' (String.lt_asymm hlt)
      have hfirst := h k
      rw [get?_cons, get?_cons, if_pos rfl, if_pos rfl] at hfirst
      obtain ⟨hvw⟩ := hfirst
      obtain ⟨hk, hfs⟩ := List.pairwise_cons.1 hfs
      obtain ⟨hl, hgs⟩ := List.pairwise_cons.1 hgs
      have hrest (key : String) : Option.Rel R (get? fs key) (get? gs key) := by
        by_cases hkey : key = k
        · subst hkey
          rw [get?_eq_none_of_lt hk, get?_eq_none_of_lt hl]
          exact .none
        · have hkey' := h key
          rwa [get?_cons, get?_cons, if_neg hkey, if_neg hkey] at hkey'
      exact .cons ⟨rfl, hvw⟩ (ih hfs hgs hrest (mem_keys_iff_of_rel hrest))

end Fields

/-! ## Objects within values -/

namespace Value

/-- The objects in the value, at every depth, have their entries in order. -/
inductive Canonical : Value → Prop
  | null : Canonical .null
  | number (x : Float) : Canonical (.number x)
  | bool (b : Bool) : Canonical (.bool b)
  | object {fields : Fields} (hsorted : fields.Sorted)
      (hvalues : ∀ field ∈ fields, Canonical field.2) : Canonical (.object fields)
  | function (c : Closure) : Canonical (.function c)
  | native (n : Native) : Canonical (.native n)

/-- The values are the same if objects are taken as maps: two objects are, if they have the same
keys and the same values there. -/
inductive Same : Value → Value → Prop
  | refl (v : Value) : Same v v
  | object {fs gs : Fields} (hkeys : ∀ key, (fs.get? key).isSome = (gs.get? key).isSome)
      (hvalues : ∀ key v w, fs.get? key = some v → gs.get? key = some w → Same v w) :
      Same (.object fs) (.object gs)

variable {fields : Fields} {v w : Value}

theorem Canonical.sorted (h : (Value.object fields).Canonical) : fields.Sorted := by
  cases h with
  | object hsorted _ => exact hsorted

theorem Canonical.of_get? (h : (Value.object fields).Canonical) {key : String}
    (hv : fields.get? key = some v) : v.Canonical := by
  cases h with
  | object _ hvalues => exact hvalues _ (Fields.mem_of_get? hv)

theorem Canonical.insert (h : (Value.object fields).Canonical) (key : String) (hv : v.Canonical) :
    (Value.object (fields.insert key v)).Canonical := by
  cases h with
  | object hsorted hvalues =>
    refine .object (hsorted.insert key v) fun field hfield => ?_
    obtain rfl | hfield := Fields.mem_insert hfield
    · exact hv
    · exact hvalues field hfield

theorem Canonical.property (h : (Value.object fields).Canonical) (key : String) :
    (fields.property key).Canonical := by
  rw [Fields.property]
  cases hv : fields.get? key with
  | none => exact .null
  | some v => exact h.of_get? hv

/-- Values that are the same are equal. -/
theorem Same.eq (h : Same v w) (hv : v.Canonical) (hw : w.Canonical) : v = w := by
  induction h with
  | refl v => rfl
  | @object fs gs hkeys _ ih =>
    have hrel (key : String) : Option.Rel Eq (fs.get? key) (gs.get? key) :=
      Fields.rel_iff.2 ⟨hkeys key, fun a b hf hg =>
        ih key a b hf hg (hv.of_get? hf) (hw.of_get? hg)⟩
    have hentries := (hv.sorted.forall₂ hw.sorted hrel).imp fun _ _ h => Prod.ext h.1 h.2
    rw [List.forall₂_eq_eq_eq] at hentries
    rw [hentries]

end Value

end ScopeScript
