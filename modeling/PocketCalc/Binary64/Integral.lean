import PocketCalc.Binary64.Nearest

/-! The integral part of a binary64 number, as a number and as an integer. -/

namespace PocketCalc.Binary64

/-- The magnitude of a number without what follows the binary point. -/
def wholeMagnitude (x : Float) : Nat := units x >>> 1074

/-- A number without what follows the binary point. It keeps its sign, also when nothing else is
left; infinities and NaN stay as they are. -/
def integralPart (x : Float) : Float :=
  if !isFinite x then x
  else if signBit x then -nearest (wholeMagnitude x) 1
  else nearest (wholeMagnitude x) 1

def smallestIndex : Int := -0x8000000000000000

def largestIndex : Int := 0x7FFFFFFFFFFFFFFF

/-- A number as an index: the integer left when it loses what follows the binary point, or the
nearest one that 64 bits can hold. NaN counts as zero. -/
def toIndex (x : Float) : Int :=
  if isNaN x then 0
  else if signBit x then max smallestIndex (-(wholeMagnitude x : Int))
  else min largestIndex (wholeMagnitude x)

end PocketCalc.Binary64
