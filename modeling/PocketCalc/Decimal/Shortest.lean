import PocketCalc.Binary64.Fields

/-! The shortest decimal that reads back as a given binary64 number. The reals that round to a
number form an interval, with its ends if the last bit of the number is zero. The coarsest grid of
decimals that meets the interval gives the digits; of two neighbours of the number on that grid the
nearer one counts, and the greater one of two equally near. -/

namespace PocketCalc.Decimal

/-- The nonnegative decimal `digits * 10^exponent`. -/
structure Scaled where
  digits : Nat
  exponent : Int
  deriving DecidableEq, Repr

namespace Scaled

/-- Numerator and denominator of a decimal. -/
def toFraction (d : Scaled) : Nat × Nat :=
  if 0 ≤ d.exponent then (d.digits * Nat.pow 10 d.exponent.toNat, 1)
  else (d.digits, Nat.pow 10 (-d.exponent).toNat)

end Scaled

/-- The reals between `low` and `high`, in units of `2^-1075`. -/
structure Interval where
  low : Nat
  high : Nat
  closed : Bool
  deriving DecidableEq, Repr

/-- The reals that round to the number with the given bits for exponent and fraction. -/
def Interval.ofBits (magnitude : Nat) : Interval where
  low := Binary64.unitsOfBits (magnitude - 1) + Binary64.unitsOfBits magnitude
  high := Binary64.unitsOfBits magnitude + Binary64.unitsOfBits (magnitude + 1)
  closed := magnitude % 2 = 0

def Interval.contains (interval : Interval) (d : Scaled) : Bool :=
  let (num, den) := d.toFraction
  let value := num <<< 1075
  let low := interval.low * den
  let high := interval.high * den
  if interval.closed then low ≤ value && value ≤ high else low < value && value < high

/-- The decimal with the given exponent that reads back as a number, if there is one. -/
def onGrid? (magnitude : Nat) (exponent : Int) : Option Scaled :=
  let units := Binary64.unitsOfBits magnitude
  let (num, den) :=
    if 0 ≤ exponent then (units, Nat.pow 10 exponent.toNat <<< 1074)
    else (units * Nat.pow 10 (-exponent).toNat, 1 <<< 1074)
  let below : Scaled := ⟨num / den, exponent⟩
  let above : Scaled := ⟨num / den + 1, exponent⟩
  let interval := Interval.ofBits magnitude
  match interval.contains below, interval.contains above with
  | true, true => some (if 2 * (num % den) < den then below else above)
  | true, false => some below
  | false, true => some above
  | false, false => none

/-- An exponent whose grid is too coarse for the given number: a binary digit is worth less than
`30103 / 100000` of a decimal one, and one digit is left over. -/
def coarsestExponent (magnitude : Nat) : Int :=
  ((Binary64.unitsOfBits magnitude).log2 - 1074 : Int) * 30103 / 100000 + 2

/-- The shortest decimal that reads back as the positive finite number with the given bits. Twenty
grids are enough, since seventeen digits tell any two numbers apart. -/
def shortest (magnitude : Nat) : Scaled :=
  let coarsest := coarsestExponent magnitude
  ((List.range 20).findSome? fun (finer : Nat) => onGrid? magnitude (coarsest - finer)).getD ⟨0, 0⟩

end PocketCalc.Decimal
