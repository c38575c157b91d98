import PocketCalc.Binary64.Fields

/-! The binary64 number nearest to an exact quotient. A tie goes to the number whose last bit is
zero, and what lies beyond the largest finite number by half a unit or more is infinite. -/

namespace PocketCalc.Binary64

/-- The natural number nearest to `num / den`, of two the even one. -/
def divToNearestEven (num den : Nat) : Nat :=
  let quotient := num / den
  let twice := 2 * (num % den)
  if den < twice || (twice = den && quotient % 2 = 1) then quotient + 1 else quotient

/-- The bits of the nonnegative number nearest to `num / den`. With `scaled / den` units of
`2^-1074` at hand, the last place is worth `2^place` units, so that 53 binary digits are kept; below
that all of them are. A significand that is rounded up to 54 digits carries into the exponent field,
as the next number up does. -/
def nearestBits (num den : Nat) : Nat :=
  let scaled := num <<< 1074
  let place := (scaled / den).log2 - 52
  min (place * 0x10000000000000 + divToNearestEven scaled (den <<< place)) 0x7FF0000000000000

/-- The nonnegative number nearest to `num / den`. -/
def nearest (num den : Nat) : Float := Float.ofBits (UInt64.ofNat (nearestBits num den))

theorem nearestBits_le (num den : Nat) : nearestBits num den ≤ 0x7FF0000000000000 :=
  Nat.min_le_right _ _

end PocketCalc.Binary64
