import PocketCalc.Text.Quoted

/-! Why a calculation ends without a value, and how that is reported. Places are offsets in a line,
counted in keys. -/

namespace PocketCalc

/-- The ways in which a line is no sequence of statements. -/
inductive Malformation where
  /-- A digit above nine, a second dot in a number, or a dot alone. -/
  | number
  /-- Two neighbours that cannot follow each other. -/
  | neighbours
  /-- A closing parenthesis that closes none. -/
  | unopenedParen
  /-- An operator or a function finds too few numbers. -/
  | missingOperand
  /-- There is no variable to assign to. -/
  | missingTarget
  /-- A key after a statement that neither ends nor separates it. -/
  | strayKey
  deriving DecidableEq, Repr

inductive Fault where
  | malformed (cause : Malformation) (offset : Nat)
  /-- An operand for which an operation has no value. -/
  | outsideDomain (offset : Nat)
  | stackFull (offset : Nat)
  | noSuchCell (offset : Nat)
  | nothingToSolve (offset : Nat)
  /-- The text is not a line. -/
  | unreadable (reason : String)
  deriving DecidableEq, Repr

namespace Fault

def offset? : Fault → Option Nat
  | malformed _ offset | outsideDomain offset | stackFull offset | noSuchCell offset
  | nothingToSolve offset => some offset
  | unreadable _ => none

/-- The class under which a fault is reported. -/
def className : Fault → String
  | malformed .. => "Syntax"
  | outsideDomain _ => "Math"
  | stackFull _ => "Stack"
  | noSuchCell _ => "Memory"
  | nothingToSolve _ => "EmptyResult"
  | unreadable _ => "ParseFailed"

/-- The message on the display. -/
def message (fault : Fault) : String :=
  match fault with
  | nothingToSolve offset => s!"Nothing to calculate at {offset}"
  | unreadable reason => s!"Failed to parse expression: {reason}"
  | malformed _ offset | outsideDomain offset | stackFull offset | noSuchCell offset =>
    s!"{fault.className} ERROR at {offset}"

/-- The class of a fault with what it carries in parentheses. -/
def diagnostic (fault : Fault) : String :=
  match fault with
  | unreadable reason => s!"{fault.className}({Text.quoted reason})"
  | malformed _ offset | outsideDomain offset | stackFull offset | noSuchCell offset
  | nothingToSolve offset => s!"{fault.className}({offset})"

end Fault
end PocketCalc
