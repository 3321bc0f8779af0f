import ScopeScript.Number.Binary

/-!
# The shortest decimal that reads back

A finite number is the only Binary64 number in an interval of reals around it, the reals that
round to it.  The shortest decimal is the one with the fewest digits in that interval, and of those
the nearest to the number.  All is computed on natural numbers: in units of `10 ^ unit` the number
itself and both ends of its interval are integers, since `m / 2 ^ p = m · 5 ^ p / 10 ^ p`.
-/

namespace ScopeScript.Number

/-- The decimal `coefficient · 10 ^ exponent`. -/
structure Decimal where
  coefficient : Nat
  exponent : Int
deriving DecidableEq, Repr

/-- Which of two decimals that are equally near is taken. -/
inductive Tie where
  /-- The one with an even last digit. -/
  | even
  /-- The greater one. -/
  | up
deriving DecidableEq, Repr

/-- A number with the ends of the interval of reals that round to it, in units of `10 ^ unit`. -/
structure Interval where
  low : Nat
  value : Nat
  high : Nat
  /-- Whether the ends belong to the interval. -/
  closed : Bool
  unit : Int
deriving DecidableEq, Repr

namespace Interval

/-- The interval of the positive number `b`.  The lower neighbour of a power of two is only half as
far away as the upper one, except for the least exponent. -/
def ofBinary (b : Binary) : Interval :=
  let p := b.q - 2
  let below := if b.m = leadingBit ∧ b.q ≠ -1074 then 1 else 2
  let scale := if 0 ≤ p then Nat.pow 2 p.toNat else Nat.pow 5 (-p).toNat
  ⟨(4 * b.m - below) * scale, 4 * b.m * scale, (4 * b.m + 2) * scale, b.m % 2 = 0, min p 0⟩

/-- Whether `n` lies in the interval. -/
def has (i : Interval) (n : Nat) : Bool :=
  if i.closed then i.low ≤ n && n ≤ i.high else i.low < n && n < i.high

/-- The multiple `c` of `step` that is nearest to the value among those in the interval, if any:
only the two neighbours of the value can be it. -/
def nearest? (i : Interval) (tie : Tie) (step : Nat) : Option Nat :=
  let c := i.value / step
  let rest := i.value % step
  match i.has (c * step), i.has ((c + 1) * step) with
  | true, true =>
    if 2 * rest < step then some c
    else if step < 2 * rest then some (c + 1)
    else if tie = .even ∧ c % 2 = 0 then some c
    else some (c + 1)
  | true, false => some c
  | false, true => some (c + 1)
  | false, false => none

/-- The decimal for the widest step `10 ^ k`, `k ≤ n`, that has a multiple in the interval. -/
def widest (i : Interval) (tie : Tie) : Nat → Decimal
  | 0 => ⟨i.value, i.unit⟩
  | n + 1 =>
    match i.nearest? tie (Nat.pow 10 (n + 1)) with
    | some c => ⟨c, i.unit + (n + 1)⟩
    | none => i.widest tie n

end Interval

namespace Decimal

/-- The same decimal with up to `n` zeros at the end of the coefficient moved to the exponent. -/
def strip : Nat → Decimal → Decimal
  | 0, d => d
  | n + 1, d =>
    if d.coefficient ≠ 0 ∧ d.coefficient % 10 = 0 then
      strip n ⟨d.coefficient / 10, d.exponent + 1⟩
    else d

/-- The digits of the coefficient. -/
def digits (d : Decimal) : List Char := Nat.toDigits 10 d.coefficient

/-- The shortest decimal for the magnitude of a finite number. -/
def shortest (tie : Tie) (b : Binary) : Decimal :=
  if b.m = 0 then ⟨0, 0⟩
  else
    let i := Interval.ofBinary b
    let length := (Nat.toDigits 10 i.value).length
    (i.widest tie length).strip length

end Decimal

end ScopeScript.Number
