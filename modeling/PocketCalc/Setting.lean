import PocketCalc.Angle

/-! What an expression is evaluated against. -/

namespace PocketCalc

/-- The cells that variables name, by name and index, and the current angle unit. -/
structure Setting where
  cell? : Char → Int → Option Float
  unit : AngleUnit

end PocketCalc
