/-!
# Reading numbers

`Number.parse?` reads an optional sign, then either `inf`, `infinity` or `nan` in any letter case
or decimal digits with at most one point and at least one digit, and an optional exponent.  The
result is the Binary64 number nearest to the decimal read.
-/

namespace ScopeScript.Number

/-- The number that a list of decimal digits stands for. -/
def ofDigits (ds : List Char) : Nat :=
  ds.foldl (fun n c => 10 * n + (c.toNat - '0'.toNat)) 0

/-- Splits off the sign that `cs` starts with, if any: whether it is a minus, and the rest. -/
def splitSign : List Char → Bool × List Char
  | '-' :: cs => (true, cs)
  | '+' :: cs => (false, cs)
  | cs => (false, cs)

/-- The exponent that `cs` holds: nothing, or `e` and an integer. -/
def exponent? : List Char → Option Int
  | [] => some 0
  | c :: cs =>
    if c = 'e' ∨ c = 'E' then
      let (negative, ds) := splitSign cs
      if ds.isEmpty || !ds.all Char.isDigit then none
      else some (if negative then -(ofDigits ds) else ofDigits ds)
    else none

/-- The digits at the start of `cs` before and after a point, and what follows them. -/
def splitPoint (cs : List Char) : List Char × List Char × List Char :=
  let whole := cs.takeWhile Char.isDigit
  match cs.dropWhile Char.isDigit with
  | '.' :: rest => (whole, rest.takeWhile Char.isDigit, rest.dropWhile Char.isDigit)
  | rest => (whole, [], rest)

/-- The number `n · 10 ^ e`, rounded to the nearest. -/
def ofDecimal (n : Nat) (e : Int) : Float :=
  Float.ofScientific n (e < 0) e.natAbs

/-- The number that the unsigned text `cs` stands for. -/
def parseMagnitude? (cs : List Char) : Option Float :=
  match cs.map Char.toLower with
  | ['i', 'n', 'f'] | ['i', 'n', 'f', 'i', 'n', 'i', 't', 'y'] => some (1 / 0)
  | ['n', 'a', 'n'] => some (0 / 0)
  | _ =>
    let (whole, fraction, rest) := splitPoint cs
    if whole.isEmpty && fraction.isEmpty then none
    else
      (exponent? rest).map fun e => ofDecimal (ofDigits (whole ++ fraction)) (e - fraction.length)

/-- The number that `s` stands for, if it is the text of one. -/
def parse? (s : String) : Option Float :=
  let (negative, cs) := splitSign s.toList
  (parseMagnitude? cs).map fun x => if negative then -x else x

end ScopeScript.Number
