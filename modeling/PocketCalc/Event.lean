import PocketCalc.Line.Printer
import PocketCalc.Decimal.Positional

/-! What a calculation leaves in its log. -/

namespace PocketCalc

inductive Event where
  /-- Solving begins at an offset, with these keys ahead. -/
  | started (offset : Nat) (keys : Line)
  /-- An operator or a function is applied while so many numbers are waiting. -/
  | applied (key : Key) (offset : Nat) (operands : Nat)
  /-- A cell is read through an index. -/
  | fetched (name : Char) (index : Float) (value : Float)
  | solved (value : Float) (stop : Nat)
  /-- A value is assigned to a variable. -/
  | assigned (value : Float) (name : Char)
  deriving DecidableEq, Repr

namespace Event

def level : Event → String
  | started .. | solved .. | assigned .. => "DEBUG"
  | applied .. | fetched .. => "TRACE"

def message : Event → String
  | started offset keys => s!"solve from {offset}: {Line.text keys}"
  | applied key offset operands =>
    s!"apply '{key.label}' at {offset}, {operands} operand(s) on stack"
  | fetched name index value => s!"{name}[{Decimal.text index}] = {Decimal.text value}"
  | solved value stop => s!"solved: {Decimal.text value} (stopped at {stop})"
  | assigned value name => s!"{Decimal.text value} -> {name}"

/-- The line in the log. -/
def entry (event : Event) : String := s!"{event.level} {event.message}"

end Event
end PocketCalc
