import ScopeScript.Number.Shortest

/-!
# Written forms of numbers

All written forms start from the shortest decimal that reads back.  A `Layout` says how their
digits are laid out; the three layouts here are the plain one, in which programs print, the
inspecting one, which tells numbers from other values, and the one of JSON texts.
-/

namespace ScopeScript.Number

/-- How the digits of a number are laid out. -/
structure Layout where
  /-- Which of two equally near decimals is written. -/
  tie : Tie
  /-- Whether a decimal whose first digit stands for `10 ^ e` is written without an exponent. -/
  positional : Int → Bool
  /-- Whether a number written without an exponent and without a fraction ends in `.0`. -/
  pointed : Bool
  /-- Whether a positive exponent has a sign. -/
  exponentPlus : Bool

/-- The plain layout never has an exponent, and integers have no point. -/
def Layout.plain : Layout := ⟨.up, fun _ => true, false, false⟩

/-- The inspecting layout has a point or an exponent, and no exponent from `10 ^ -4` to
`10 ^ 15`. -/
def Layout.inspecting : Layout := ⟨.up, fun e => -4 ≤ e && e < 16, true, false⟩

/-- In JSON a number has a point or an exponent, and no exponent from `10 ^ -5` to `10 ^ 15`. -/
def Layout.json : Layout := ⟨.even, fun e => -5 ≤ e && e < 16, true, true⟩

namespace Layout

/-- The digits `ds` with the last one standing for `10 ^ exponent`, without an exponent. -/
def positionalText (pointed : Bool) (ds : List Char) (exponent : Int) : List Char :=
  let point := (ds.length + exponent).toNat
  if 0 ≤ exponent then
    ds ++ List.replicate exponent.toNat '0' ++ (if pointed then ['.', '0'] else [])
  else if 0 < ds.length + exponent then
    ds.take point ++ '.' :: ds.drop point
  else
    '0' :: '.' :: List.replicate (-(ds.length + exponent)).toNat '0' ++ ds

/-- The digits `ds` with a point after the first one, and the exponent `e`. -/
def exponentText (plus : Bool) (ds : List Char) (e : Int) : List Char :=
  let fraction := if ds.length ≤ 1 then [] else '.' :: ds.drop 1
  let sign := if e < 0 then ['-'] else if plus then ['+'] else []
  ds.take 1 ++ fraction ++ 'e' :: sign ++ Nat.toDigits 10 e.natAbs

/-- The written form of a decimal. -/
def decimalText (n : Layout) (d : Decimal) : List Char :=
  let ds := d.digits
  let e := d.exponent + ds.length - 1
  if n.positional e then positionalText n.pointed ds d.exponent
  else exponentText n.exponentPlus ds e

/-- The written form of `x`. -/
def render (n : Layout) (x : Float) : String :=
  if x.isNaN then "NaN"
  else
    let text := if x.isInf then "inf".toList
      else n.decimalText (Decimal.shortest n.tie (Binary.ofFloat x))
    String.ofList (if isNegative x then '-' :: text else text)

end Layout

end ScopeScript.Number
