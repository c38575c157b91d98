import PocketCalc.Key.Basic
import PocketCalc.Angle
import PocketCalc.Binary64.Integral

/-! What operators and functions compute. An operation has no value for operands outside its domain;
elsewhere the rules of binary64 arithmetic hold, so that it may give an infinity or NaN. -/

namespace PocketCalc

def Operator.value? : Operator → Float → Float → Option Float
  | .add, a, b => some (a + b)
  | .subtract, a, b => some (a - b)
  | .multiply, a, b => some (a * b)
  | .divide, a, b => if b == 0.0 then none else some (a / b)
  | .power, a, b => some (Float.pow a b)
  | .root, degree, a => some (Float.pow a (1.0 / degree))

/-- The trigonometric functions take their operand in the current unit, their inverses always give
degrees. -/
def PrefixFn.value? (unit : AngleUnit) : PrefixFn → Float → Option Float
  | .squareRoot, x => if x < 0.0 then none else some x.sqrt
  | .cubeRoot, x => some x.cbrt
  | .log, x => if x ≤ 0.0 then none else some x.log10
  | .powerOfTen, x => some (Float.pow 10.0 x)
  | .ln, x => if x ≤ 0.0 then none else some x.log
  | .exp, x => some x.exp
  | .sin, x => some (unit.toRadians x).sin
  | .cos, x => some (unit.toRadians x).cos
  | .tan, x => some (unit.toRadians x).tan
  | .sinh, x => some x.sinh
  | .cosh, x => some x.cosh
  | .tanh, x => some x.tanh
  | .arcsin, x => some (Angle.radiansToDegrees x.asin)
  | .arccos, x => some (Angle.radiansToDegrees x.acos)
  | .arctan, x => some (Angle.radiansToDegrees x.atan)
  | .arsinh, x => some x.asinh
  | .arcosh, x => some x.acosh
  | .artanh, x => some x.atanh
  | .minus, x => some (-x)
  | .abs, x => some x.abs
  | .integerPart, x => some (Binary64.integralPart x)
  | .fractionPart, x => some (x - Binary64.integralPart x)
  | .marker _, x => some x

/-- The product of the numbers from one to `n`. -/
def factorial : Nat → Nat
  | 0 => 1
  | n + 1 => (n + 1) * factorial n

/-- Factorials are computed exactly and rounded once. The next one after that of 170 is out of
range. -/
def factorial? (x : Float) : Option Float :=
  if 0.0 ≤ x && x ≤ 170.0 && Binary64.integralPart x == x then
    some (Binary64.nearest (factorial (Binary64.wholeMagnitude x)) 1)
  else none

def PostfixFn.value? (unit : AngleUnit) : PostfixFn → Float → Option Float
  | .square, x => some (x * x)
  | .reciprocal, x => if x == 0.0 then none else some (1.0 / x)
  | .factorial, x => factorial? x
  | .degrees, x => some (unit.ofDegrees x)
  | .radians, x => some (unit.ofRadians x)
  | .gradians, x => some (unit.ofGradians x)
  | .degreeMark, x => some x

/-- A marker stands in an expression without being applied: it does not even look for an operand. -/
def PrefixFn.isMarker : PrefixFn → Bool
  | .marker _ => true
  | _ => false

def PostfixFn.isMarker : PostfixFn → Bool
  | .degreeMark => true
  | _ => false

theorem PrefixFn.value?_of_isMarker {f : PrefixFn} (h : f.isMarker = true) (unit : AngleUnit)
    (x : Float) : f.value? unit x = some x := by
  cases f <;> simp_all [isMarker, value?]

theorem PostfixFn.value?_of_isMarker {f : PostfixFn} (h : f.isMarker = true) (unit : AngleUnit)
    (x : Float) : f.value? unit x = some x := by
  cases f <;> simp_all [isMarker, value?]

end PocketCalc
