/-! Angle units. A calculator works in a current unit; the functions here convert between two fixed
units and between a fixed unit and the current one. Each conversion multiplies before it divides. -/

namespace PocketCalc

inductive AngleUnit where
  | degrees | radians | gradians
  deriving DecidableEq, Repr

namespace Angle

def pi : Float := 3.141592653589793

def degreesToRadians (x : Float) : Float := x * pi / 180.0

def radiansToDegrees (x : Float) : Float := x * 180.0 / pi

def gradiansToRadians (x : Float) : Float := x * pi / 200.0

def radiansToGradians (x : Float) : Float := x * 200.0 / pi

def degreesToGradians (x : Float) : Float := x * 10.0 / 9.0

def gradiansToDegrees (x : Float) : Float := x * 9.0 / 10.0

end Angle

namespace AngleUnit

def toRadians : AngleUnit → Float → Float
  | degrees => Angle.degreesToRadians
  | radians => id
  | gradians => Angle.gradiansToRadians

def ofRadians : AngleUnit → Float → Float
  | degrees => Angle.radiansToDegrees
  | radians => id
  | gradians => Angle.radiansToGradians

def ofDegrees : AngleUnit → Float → Float
  | degrees => id
  | radians => Angle.degreesToRadians
  | gradians => Angle.degreesToGradians

def ofGradians : AngleUnit → Float → Float
  | degrees => Angle.gradiansToDegrees
  | radians => Angle.gradiansToRadians
  | gradians => id

end AngleUnit
end PocketCalc
