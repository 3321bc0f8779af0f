import Mathlib
import ScopeScript.Number.Binary

/-!
# Zeros, and what is not finite

There are two zeros, and only they are equal to zero (`Number.beq_zero_iff`).  The exponent with all
bits set is that of the infinite numbers and of NaN (`Number.isFinite_eq_false_iff`).
-/

namespace ScopeScript.Number

open Float.Model Float.Model.Format

theorem unpacked_beq_zero {u : UnpackedFloat} :
    u.beq (.zero .positive) = true ↔ ∃ s, u = .zero s := by
  cases u with
  | notANumber | zero s => simp [UnpackedFloat.beq, UnpackedFloat.compare]
  | infinity s | finite s => cases s <;> simp [UnpackedFloat.beq, UnpackedFloat.compare]

/-- The zeros have neither an exponent nor a fraction. -/
theorem unpack_eq_zero_iff {b : BitVec 64} :
    (∃ s, UnpackedFloat.unpack binary64 b = .zero s) ↔
      @UnpackedFloat.unpackExponent binary64 b = 0 ∧
        @UnpackedFloat.unpackMantissa binary64 b = 0 := by
  unfold UnpackedFloat.unpack
  simp only
  split
  · next h =>
    rw [h]
    split
    · simp
    · simp
  · split
    · next he =>
      split
      · next hm => exact iff_of_true ⟨_, rfl⟩ ⟨he, hm⟩
      · next hm => exact iff_of_false nofun fun h => hm h.2
    · next he => exact iff_of_false nofun fun h => he h.1

theorem toNat_unpackExponent (x : Float) :
    (@UnpackedFloat.unpackExponent binary64 x.toBits.toBitVec).toNat = exponentBits x := by
  simp [exponentBits, leadingBit, UnpackedFloat.unpackExponent, Nat.shiftRight_eq_div_pow]

theorem beq_zero_iff {x : Float} : (x == 0) = true ↔ isZero x = true := by
  let b := x.toBits.toBitVec
  have hbeq : (x == 0) = (UnpackedFloat.unpack binary64 b).beq (.zero .positive) := rfl
  have hexponent : (@UnpackedFloat.unpackExponent binary64 b).toNat =
      x.toBits.toNat / 0x10000000000000 % 2048 := toNat_unpackExponent x
  have hmantissa : (@UnpackedFloat.unpackMantissa binary64 b).toNat =
      x.toBits.toNat % 0x10000000000000 := by
    simp [b, UnpackedFloat.unpackMantissa]
  have hexponent_zero : (0 : BitVec binary64.exponentBits).toNat = 0 := rfl
  have hmantissa_zero : (0 : BitVec binary64.mantissaBitsWithoutImplicit).toNat = 0 := rfl
  have hzero : isZero x = true ↔ x.toBits.toNat % 0x8000000000000000 = 0 := by
    simp [isZero, signBit]
  rw [hbeq, unpacked_beq_zero, unpack_eq_zero_iff, hzero, ← BitVec.toNat_inj, ← BitVec.toNat_inj,
    hexponent, hmantissa, hexponent_zero, hmantissa_zero]
  omega

/-- NaN and the infinite numbers have the greatest exponent. -/
theorem unpack_isNaN_or_isInf_iff {b : BitVec 64} :
    (UnpackedFloat.unpack binary64 b).isNaN = true ∨
        (UnpackedFloat.unpack binary64 b).isInf = true ↔
      @UnpackedFloat.unpackExponent binary64 b = -1#11 := by
  unfold UnpackedFloat.unpack
  simp only
  split
  · next he =>
    split
    · exact iff_of_true (.inr rfl) he
    · exact iff_of_true (.inl rfl) he
  · next he =>
    refine iff_of_false ?_ he
    split
    · split
      · exact nofun
      · exact nofun
    · exact nofun

theorem isFinite_eq_false_iff {x : Float} :
    isFinite x = false ↔ x.isNaN = true ∨ x.isInf = true := by
  have hexponent : (-1#11 : BitVec binary64.exponentBits).toNat = 2047 := rfl
  have hclasses : x.isNaN = true ∨ x.isInf = true ↔
      @UnpackedFloat.unpackExponent binary64 x.toBits.toBitVec = -1#11 := unpack_isNaN_or_isInf_iff
  rw [hclasses, ← BitVec.toNat_inj, toNat_unpackExponent, hexponent]
  simp [isFinite]

theorem isFinite_eq_true_iff {x : Float} :
    isFinite x = true ↔ x.isNaN = false ∧ x.isInf = false := by
  rw [← Bool.not_eq_false, isFinite_eq_false_iff, not_or, Bool.not_eq_true, Bool.not_eq_true]

end ScopeScript.Number
