import PocketCalc.Decimal.Shortest

/-! Numbers as text in positional notation: never an exponent, no point after a whole number. -/

namespace PocketCalc.Decimal

/-- A decimal in positional notation. Zeros fill the places that its digits do not reach. -/
def Scaled.positional (d : Scaled) : String :=
  let digits := Nat.toDigits 10 d.digits
  if 0 ≤ d.exponent then String.ofList (digits ++ List.replicate d.exponent.toNat '0')
  else
    let places := (-d.exponent).toNat
    let padded := List.replicate (places + 1 - digits.length) '0' ++ digits
    let whole := padded.length - places
    String.ofList (padded.take whole ++ '.' :: padded.drop whole)

/-- The shortest text of a number. The sign of zero is written. -/
def text (x : Float) : String :=
  if Binary64.isNaN x then "NaN"
  else
    let magnitude := Binary64.bits x % 0x8000000000000000
    let unsigned :=
      if !Binary64.isFinite x then "inf"
      else if magnitude = 0 then "0"
      else (shortest magnitude).positional
    if Binary64.signBit x then "-" ++ unsigned else unsigned

end PocketCalc.Decimal
