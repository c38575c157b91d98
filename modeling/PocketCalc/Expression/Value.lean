import PocketCalc.Expression.Basic
import PocketCalc.Operation
import PocketCalc.Setting

/-! The value of an expression by recursion on the tree, left operands before right ones. The first
operation without a value or cell that does not exist is the fault, at the offset of its key. -/

namespace PocketCalc.Expression

def orOutsideDomain (offset : Nat) : Option Float → Except Fault Float
  | some value => .ok value
  | none => .error (.outsideDomain offset)

def cellValue (setting : Setting) (name : Char) (index : Int) (offset : Nat) : Except Fault Float :=
  match setting.cell? name index with
  | some value => .ok value
  | none => .error (.noSuchCell offset)

/-- The value of an expression whose first key has the given offset. -/
def value (setting : Setting) (start : Nat) : Expression → Except Fault Float
  | number keys => do
    let literal ← (Literal.read keys).mapError fun index => .malformed .number (start + index)
    pure literal.value
  | cell name => cellValue setting name 0 start
  | indexed name index => do
    let i ← index.value setting (start + 2)
    cellValue setting name (Binary64.toIndex i) (start + 2 + index.keys.length)
  | paren inner => inner.value setting (start + 1)
  | prefixed f operand => do
    let x ← operand.value setting (start + 1)
    orOutsideDomain start (f.value? setting.unit x)
  | postfixed operand f => do
    let x ← operand.value setting start
    orOutsideDomain (start + operand.keys.length) (f.value? setting.unit x)
  | binary left op right => do
    let a ← left.value setting start
    let b ← right.value setting (start + left.keys.length + 1)
    orOutsideDomain (start + left.keys.length) (op.value? a b)

end PocketCalc.Expression
