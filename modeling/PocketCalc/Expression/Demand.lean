import PocketCalc.Expression.Basic

/-! How much room an expression takes on stacks for numbers and for pending commands when it is
evaluated from left to right and each operation is applied as soon as the next operator allows. -/

namespace PocketCalc.Expression

/-- The greatest number of numbers that wait at a time. -/
def numberDemand : Expression → Nat
  | number _ | cell _ => 1
  | indexed _ inner | paren inner | prefixed _ inner | postfixed inner _ => inner.numberDemand
  | binary left _ right => max left.numberDemand (1 + right.numberDemand)

/-- The greatest number of operators, functions and brackets that are pending at a time. -/
def commandDemand : Expression → Nat
  | number _ | cell _ => 0
  | indexed _ inner | paren inner | prefixed _ inner => 1 + inner.commandDemand
  | postfixed operand _ => operand.commandDemand
  | binary left _ right => max left.commandDemand (1 + right.commandDemand)

/-- The offset of the first token for which there is no room, with so much room left on the two
stacks. The first key of the expression has the offset `start`. -/
def overflow? (numberRoom commandRoom start : Nat) : Expression → Option Nat
  | number _ | cell _ => if numberRoom = 0 then some start else none
  | indexed _ index =>
    if commandRoom = 0 then some start else index.overflow? numberRoom (commandRoom - 1) (start + 2)
  | paren inner | prefixed _ inner =>
    if commandRoom = 0 then some start else inner.overflow? numberRoom (commandRoom - 1) (start + 1)
  | postfixed operand _ => operand.overflow? numberRoom commandRoom start
  | binary left _ right =>
    match left.overflow? numberRoom commandRoom start with
    | some offset => some offset
    | none =>
      if commandRoom = 0 then some (start + left.keys.length)
      else right.overflow? (numberRoom - 1) (commandRoom - 1) (start + left.keys.length + 1)

end PocketCalc.Expression
