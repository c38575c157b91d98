import PocketCalc.Angle
import PocketCalc.Binary64.Fields
import PocketCalc.Binary64.Integral
import PocketCalc.Binary64.Nearest
import PocketCalc.Calculator
import PocketCalc.Decimal.Positional
import PocketCalc.Decimal.Shortest
import PocketCalc.Event
import PocketCalc.Expression.Basic
import PocketCalc.Expression.Demand
import PocketCalc.Expression.Value
import PocketCalc.Fault
import PocketCalc.Key.Basic
import PocketCalc.Key.Label
import PocketCalc.Line.Grammar
import PocketCalc.Line.Printer
import PocketCalc.Line.Reader
import PocketCalc.Literal
import PocketCalc.Memory
import PocketCalc.Operation
import PocketCalc.Setting
import PocketCalc.Solver.Basic
import PocketCalc.Solver.Machine
import PocketCalc.Text.Blank
import PocketCalc.Text.Printable
import PocketCalc.Text.Quoted
import PocketCalc.Token.Basic
import PocketCalc.Token.Lexer
import PocketCalc.Proofs.Expression.Tokens
import PocketCalc.Proofs.Solver.Equations
import PocketCalc.Proofs.Expression.Scan
import PocketCalc.Proofs.Expression.Grammar
import PocketCalc.Proofs.Expression.Delivery
import PocketCalc.Proofs.Expression.Capacity
import PocketCalc.Proofs.Key.Spelling
import PocketCalc.Proofs.Key.Longest
import PocketCalc.Proofs.Line.Words
import PocketCalc.Proofs.Line.Reading
import PocketCalc.Proofs.Line.RoundTrip
import PocketCalc.Proofs.Solver.Solution
import PocketCalc.Proofs.Solver.Relocation
import PocketCalc.Proofs.Solver.Displacement
import PocketCalc.Proofs.Solver.Extent
import PocketCalc.Proofs.Calculator.Statements
import PocketCalc.Proofs.Calculator.Sequence
import PocketCalc.Proofs.Solver.Closers
import PocketCalc.Proofs.Solver.Supply
import PocketCalc.Proofs.Solver.Nesting
import PocketCalc.Proofs.Solver.Progress
import PocketCalc.Proofs.Solver.Outcome
import PocketCalc.Proofs.Solver.Malformation
import PocketCalc.Proofs.Solver.Beginning
import PocketCalc.Proofs.Line.Language
import PocketCalc.Proofs.Solver.Blame
import PocketCalc.Proofs.Solver.Indices
import PocketCalc.Proofs.Solver.Failure
import PocketCalc.Proofs.Calculator.Completion
import PocketCalc.Proofs.Memory.Cells
import PocketCalc.Proofs.Calculator.Frame
import PocketCalc.Proofs.Calculator.Session
import PocketCalc.Proofs.Memory.History
import PocketCalc.Proofs.Event.Entry
import PocketCalc.Proofs.Fault
import PocketCalc.Proofs.Solver.Application
import PocketCalc.Proofs.Solver.Emptiness
import PocketCalc.Proofs.Literal.Number
import PocketCalc.Proofs.Line.Rejection
import PocketCalc.Proofs.Line.Spacing
import PocketCalc.Proofs.Solver.Culprit
import PocketCalc.Proofs.Calculator.Culprit
import PocketCalc.Proofs.Binary64.Grid
import PocketCalc.Proofs.Binary64.Rounding
import PocketCalc.Proofs.Literal.Decimal
import PocketCalc.Proofs.Solver.Unit
import PocketCalc.Proofs.Calculator.Unit
import PocketCalc.Proofs.Solver.States
import PocketCalc.Proofs.Solver.Flat
import PocketCalc.Proofs.Solver.Stepwise
import PocketCalc.Proofs.Solver.Log
import PocketCalc.Proofs.Calculator.Log
import PocketCalc.Proofs.Token.Tiling
import PocketCalc.Proofs.Solver.Moments
import PocketCalc.Proofs.Solver.Within
import PocketCalc.Proofs.Solver.Order
