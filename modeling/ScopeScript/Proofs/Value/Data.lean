import Mathlib
import ScopeScript.Number.Layout
import ScopeScript.Proofs.Number.DigitRun
import ScopeScript.Proofs.Token.Words
import ScopeScript.Value.Basic

/-!
# Data

Values that consist of null, truth values, natural numbers and objects of such values whose keys are
names.  Each is equal to itself, and there is an expression for it.
-/

namespace ScopeScript

/-! ## Natural numbers -/

namespace Number

/-- The number is a natural one, and not `-0`. -/
def IsNatural (x : Float) : Prop :=
  isFinite x = true ∧ isNegative x = false ∧
    (0 ≤ (Binary.ofFloat x).q ∨ 2 ^ (-(Binary.ofFloat x).q).toNat ∣ (Binary.ofFloat x).m)

instance (x : Float) : Decidable (IsNatural x) := inferInstanceAs (Decidable (_ ∧ _ ∧ (_ ∨ _)))

/-- The plain written form of the number is a run of digits, and the number is what these digits are
read as. -/
def ReadsBack (x : Float) : Prop :=
  IsDigitRun (Layout.plain.render x) ∧ parse? (Layout.plain.render x) = some x

/-- All finite numbers are equal to themselves. -/
theorem beq_self_of_isFinite {x : Float} (h : isFinite x = true) : (x == x) = true := by
  refine Float.beq_self_iff.2 ?_
  rintro rfl
  exact absurd h (by decide)

end Number

/-! ## Data -/

/-- A value that consists of null, truth values, natural numbers and objects with names as keys. -/
inductive Value.IsData : Value → Prop
  | null : IsData .null
  | number {x : Float} (hx : Number.IsNatural x) : IsData (.number x)
  | bool (b : Bool) : IsData (.bool b)
  | object {fields : Fields} (hsorted : fields.Pairwise (·.1 < ·.1))
      (hkeys : ∀ field ∈ fields, Text.IsName field.1)
      (hvalues : ∀ field ∈ fields, IsData field.2) : IsData (.object fields)

mutual

/-- The numbers in a value, also those in the objects in it. -/
def Value.numbers : Value → List Float
  | .number x => [x]
  | .object fields => Fields.numbers fields
  | _ => []

/-- The numbers in the values of an object. -/
def Fields.numbers : Fields → List Float
  | [] => []
  | (_, v) :: rest => v.numbers ++ Fields.numbers rest

end

mutual

/-- The expression for a value, where names stand for what is not a number or an object. -/
def Value.literal : Value → Expr
  | .null => .name "null"
  | .number x => .number x
  | .bool b => .name (if b then "true" else "false")
  | .object fields => .object (Fields.literal fields)
  | .function c => .name c.name
  | .native n => .name n.name

/-- The entries for those of an object. -/
def Fields.literal : Fields → List Property
  | [] => []
  | (key, v) :: rest => .keyed key v.literal :: Fields.literal rest

end

theorem Fields.numbers_of_mem {fields : Fields} {field : String × Value} (h : field ∈ fields) :
    field.2.numbers ⊆ Fields.numbers fields := by
  induction fields with
  | nil => cases h
  | cons first rest ih =>
    obtain ⟨key, v⟩ := first
    obtain rfl | h := List.mem_cons.1 h
    · exact List.subset_append_left _ _
    · exact List.subset_append_of_subset_right _ (ih h)

theorem fieldsEqual_self {fields : Fields} (h : ∀ field ∈ fields, field.2.equal field.2 = true) :
    fieldsEqual fields fields = true := by
  induction fields with
  | nil => rfl
  | cons field rest ih =>
    obtain ⟨hfield, hrest⟩ := List.forall_mem_cons.1 h
    simp [fieldsEqual, hfield, ih hrest]

/-- Data is equal to itself. -/
theorem Value.IsData.equal_self {v : Value} (h : v.IsData) : v.equal v = true := by
  induction h with
  | null => rfl
  | number hx => exact Number.beq_self_of_isFinite hx.1
  | bool b => exact beq_self_eq_true b
  | object _ _ _ ih => exact fieldsEqual_self ih

/-- An entry whose key comes after the others is added at the end. -/
theorem Fields.insert_last {fields : Fields} {key : String} (v : Value)
    (h : ∀ field ∈ fields, field.1 < key) : fields.insert key v = fields ++ [(key, v)] := by
  induction fields with
  | nil => rfl
  | cons field rest ih =>
    obtain ⟨k, w⟩ := field
    obtain ⟨hk, hrest⟩ := List.forall_mem_cons.1 h
    have hne : key ≠ k := fun heq => String.lt_irrefl k (heq ▸ hk)
    rw [insert, if_neg (String.lt_asymm hk), if_neg hne, ih hrest, List.cons_append]

end ScopeScript
