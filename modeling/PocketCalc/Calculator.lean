import PocketCalc.Line.Reader
import PocketCalc.Memory
import PocketCalc.Solver.Basic

/-! The calculator: a memory and a current angle unit, and the evaluation of a typed text against
them. A text holds statements with colons between them. A statement is an expression, and may assign
its value to a variable. -/

namespace PocketCalc

structure Calculator where
  unit : AngleUnit := .degrees
  memory : Memory := {}

/-- The outcome of an evaluation: the value of the last statement or the first fault, the calculator
with all assignments made before that, and the log. -/
structure Evaluation where
  result : Except Fault Float
  calculator : Calculator
  log : List Event

namespace Calculator

def setting (calculator : Calculator) : Setting := ⟨calculator.memory.cell?, calculator.unit⟩

def setUnit (calculator : Calculator) (unit : AngleUnit) : Calculator := { calculator with unit }

/-- Evaluates the statements in a row of keys, the first of which has the given offset. -/
def evaluateFrom (calculator : Calculator) (start : Nat) (keys : List Key) : Evaluation :=
  match Machine.solve calculator.setting start keys {} with
  | .error fault machine => ⟨.error fault, calculator, machine.events.reverse⟩
  | .ok (value, stop) machine =>
    let log := machine.events.reverse
    match hrest : keys.drop (stop - start) with
    | [] => ⟨.ok value, calculator, log⟩
    | .separator .colon :: rest =>
      let next := evaluateFrom calculator (stop + 1) rest
      { next with log := log ++ next.log }
    | .separator .assign :: .letter name :: rest =>
      match calculator.memory.store? name 0 value with
      | none => ⟨.error (.noSuchCell (stop + 1)), calculator, log⟩
      | some memory =>
        let calculator := { calculator with memory }
        let log := log ++ [.assigned value name]
        match rest with
        | [] => ⟨.ok value, calculator, log⟩
        | .separator .colon :: rest =>
          let next := evaluateFrom calculator (stop + 3) rest
          { next with log := log ++ next.log }
        | _ :: _ => ⟨.error (.malformed .strayKey (stop + 2)), calculator, log⟩
    | .separator .assign :: _ =>
      ⟨.error (.malformed .missingTarget (stop + 1)), calculator, log⟩
    | _ :: _ => ⟨.error (.malformed .strayKey stop), calculator, log⟩
termination_by keys.length
decreasing_by
  all_goals
    have hlength := congrArg List.length hrest
    simp only [List.length_drop, List.length_cons] at hlength ⊢
    omega

/-- Evaluates a typed text. -/
def evaluate (calculator : Calculator) (text : String) : Evaluation :=
  match Line.ofText text with
  | .error fault => ⟨.error (.unreadable fault.reason), calculator, []⟩
  | .ok line => calculator.evaluateFrom 0 line

end Calculator
end PocketCalc
