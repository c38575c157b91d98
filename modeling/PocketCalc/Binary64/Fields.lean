/-! The fields of a binary64 number, and its exact magnitude as a natural number of the smallest
positive one, `2^-1074`. -/

namespace PocketCalc.Binary64

def bits (x : Float) : Nat := x.toBits.toNat

def signBit (x : Float) : Bool := 0x8000000000000000 ≤ bits x

/-- The eleven bits of the exponent. All of them are set in infinities and NaN. -/
def exponentField (x : Float) : Nat := bits x / 0x10000000000000 % 0x800

def fractionField (x : Float) : Nat := bits x % 0x10000000000000

def isFinite (x : Float) : Bool := exponentField x < 0x7FF

def isNaN (x : Float) : Bool := !isFinite x && fractionField x != 0

/-- The magnitude of a number as a multiple of `2^-1074`, from the bits that hold exponent and
fraction. Exponent fields `0` and `1` have one scale, and from `1` on the fraction has a leading bit
that is not written. Infinity counts as the first power of two that is out of range. -/
def unitsOfBits (magnitude : Nat) : Nat :=
  let exponent := magnitude / 0x10000000000000
  let fraction := magnitude % 0x10000000000000
  if exponent = 0 then fraction else (0x10000000000000 + fraction) <<< (exponent - 1)

/-- The exact magnitude of a number as a multiple of `2^-1074`. -/
def units (x : Float) : Nat := unitsOfBits (bits x % 0x8000000000000000)

end PocketCalc.Binary64
