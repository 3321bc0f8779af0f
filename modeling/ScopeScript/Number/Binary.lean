/-!
# Binary64 numbers as integers with a power of two

A finite number is `± m · 2 ^ q` with natural `m` and integer `q`.  `Binary.ofFloat` reads the two
from the bits, and `Binary.toFloat` writes them back when `m` has at most 53 bits.  The remainder of
a division rounded toward zero is computed exactly in this form.
-/

namespace ScopeScript.Number

/-- The number `m · 2 ^ q`, negated if `negative` is set. -/
structure Binary where
  negative : Bool
  m : Nat
  q : Int
deriving DecidableEq, Repr

/-- The weight of the first bit of a normal significand, above the 52 bits of the fraction. -/
def leadingBit : Nat := 0x10000000000000

/-- The weight of the sign bit. -/
def signBit : Nat := 0x8000000000000000

/-- Whether the sign bit of `x` is set. -/
def isNegative (x : Float) : Bool := signBit ≤ x.toBits.toNat

/-- The eleven bits of the exponent of `x`. -/
def exponentBits (x : Float) : Nat := x.toBits.toNat / leadingBit % 2048

/-- Whether `x` is neither infinite nor NaN. -/
def isFinite (x : Float) : Bool := exponentBits x ≠ 2047

/-- Whether `x` is `+0` or `-0`. -/
def isZero (x : Float) : Bool := x.toBits.toNat % signBit == 0

namespace Binary

/-- The sign, significand and exponent of a finite number. -/
def ofFloat (x : Float) : Binary :=
  let fraction := x.toBits.toNat % leadingBit
  let exponent := exponentBits x
  if exponent = 0 then ⟨isNegative x, fraction, -1074⟩
  else ⟨isNegative x, leadingBit + fraction, Int.ofNat exponent - 1075⟩

/-- The bits of the magnitude `m · 2 ^ q`, provided that it is a finite number and `m` has at most
53 bits: `m` is shifted up until it has all of them or the exponent is the least one. -/
def magnitudeBits (m : Nat) (q : Int) : Nat :=
  let room := min (52 - m.log2) (q + 1074).toNat
  let m := m <<< room
  if m < leadingBit then m else (q - room + 1075).toNat * leadingBit + (m - leadingBit)

/-- The Binary64 number equal to `b`, provided that one exists. -/
def toFloat (b : Binary) : Float :=
  let sign := if b.negative then signBit else 0
  Float.ofBits (UInt64.ofNat (sign + magnitudeBits b.m b.q))

end Binary

/-! ## Remainders -/

/-- The remainder of two finite numbers, the second of which is not zero: `x - n · y` for the
integer `n` nearest to zero with a remainder smaller than `y`, with the sign of `x`.  It is the
remainder of two natural numbers in units of `2 ^ min p q`, and has at most 53 bits there. -/
def Binary.remainder (x y : Binary) : Binary :=
  let q := min x.q y.q
  ⟨x.negative, (x.m <<< (x.q - q).toNat) % (y.m <<< (y.q - q).toNat), q⟩

/-- The remainder of `x` by `y`: NaN for an infinite or undefined `x` and for a zero or undefined
`y`, and `x` itself for an infinite `y`. -/
def remainder (x y : Float) : Float :=
  if x.isNaN || y.isNaN || x.isInf || isZero y then 0 / 0
  else if y.isInf then x
  else ((Binary.ofFloat x).remainder (Binary.ofFloat y)).toFloat

end ScopeScript.Number
