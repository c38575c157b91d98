import PocketCalc.Calculator
import PocketCalc.Proofs.Solver.Displacement
import PocketCalc.Proofs.Solver.Extent

/-! Evaluation statement by statement. What one statement does is told apart from what comes after
it, so that facts about a row of statements follow by induction from facts about its first one. -/

namespace PocketCalc

/-- What an evaluation leaves behind but for its log. -/
def Evaluation.outcome (evaluation : Evaluation) : Except Fault Float × Calculator :=
  (evaluation.result, evaluation.calculator)

namespace Calculator

/-- How far one statement takes the evaluation of a row. -/
inductive Progress where
  | failed (fault : Fault) (calculator : Calculator)
  | finished (value : Float) (calculator : Calculator)
  | continues (calculator : Calculator) (start : Nat) (rest : List Key)

/-- What is done at the end of a statement: the row ends or goes on after a colon. -/
def atEnd (calculator : Calculator) (value : Float) (stop : Nat) : List Key → Progress
  | [] => .finished value calculator
  | key :: rest =>
    if key = .separator .colon then .continues calculator (stop + 1) rest
    else .failed (.malformed .strayKey stop) calculator

/-- What is done with the value of an expression: an arrow assigns it to the variable after it. -/
def afterValue (calculator : Calculator) (value : Float) (stop : Nat) (row : List Key) : Progress :=
  match row with
  | .separator .assign :: .letter name :: rest =>
    match calculator.memory.store? name 0 value with
    | none => .failed (.noSuchCell (stop + 1)) calculator
    | some memory => atEnd { calculator with memory } value (stop + 2) rest
  | .separator .assign :: _ => .failed (.malformed .missingTarget (stop + 1)) calculator
  | _ => calculator.atEnd value stop row

theorem atEnd_colon (calculator : Calculator) (value : Float) (stop : Nat) (rest : List Key) :
    calculator.atEnd value stop (.separator .colon :: rest) =
      .continues calculator (stop + 1) rest := rfl

theorem atEnd_of_ne {key : Key} (h : key ≠ .separator .colon) (calculator : Calculator)
    (value : Float) (stop : Nat) (rest : List Key) :
    calculator.atEnd value stop (key :: rest) =
      .failed (.malformed .strayKey stop) calculator := if_neg h

theorem afterValue_of_ne {key : Key} (h : key ≠ .separator .assign) (calculator : Calculator)
    (value : Float) (stop : Nat) (rest : List Key) :
    calculator.afterValue value stop (key :: rest) = calculator.atEnd value stop (key :: rest) := by
  unfold afterValue
  split
  · next hrow =>
      cases hrow
      exact absurd rfl h
  · next hrow =>
      cases hrow
      exact absurd rfl h
  · rfl

/-- The first statement of a row. -/
def firstStatement (calculator : Calculator) (start : Nat) (keys : List Key) : Progress :=
  match Machine.solve calculator.setting start keys {} with
  | .error fault _ => .failed fault calculator
  | .ok (value, stop) _ => calculator.afterValue value stop (keys.drop (stop - start))

/-- What the assignment of a value leaves in the log, if there is one. -/
def assignment (calculator : Calculator) (value : Float) (row : List Key) : List Event :=
  match row with
  | .separator .assign :: .letter name :: _ =>
    if (calculator.memory.store? name 0 value).isSome then [.assigned value name] else []
  | _ => []

/-- What the first statement of a row leaves in the log. -/
def firstLog (calculator : Calculator) (start : Nat) (keys : List Key) : List Event :=
  match Machine.solve calculator.setting start keys {} with
  | .error _ machine => machine.events.reverse
  | .ok (value, stop) machine =>
    machine.events.reverse ++ calculator.assignment value (keys.drop (stop - start))

/-- The evaluation of a row whose first statement has come this far and left this log. -/
def Progress.evaluation (log : List Event) : Progress → Evaluation
  | failed fault calculator => ⟨.error fault, calculator, log⟩
  | finished value calculator => ⟨.ok value, calculator, log⟩
  | continues calculator start rest =>
    let next := calculator.evaluateFrom start rest
    { next with log := log ++ next.log }

theorem assignment_nil (calculator : Calculator) (value : Float) :
    calculator.assignment value [] = [] := rfl

theorem assignment_of_ne {key : Key} (h : key ≠ .separator .assign) (calculator : Calculator)
    (value : Float) (rest : List Key) : calculator.assignment value (key :: rest) = [] := by
  unfold assignment
  split
  · next hrow =>
      cases hrow
      exact absurd rfl h
  · rfl

theorem assignment_of_untargeted {rest : List Key}
    (h : ∀ name more, rest ≠ .letter name :: more) (calculator : Calculator) (value : Float) :
    calculator.assignment value (.separator .assign :: rest) = [] := by
  unfold assignment
  split
  · next hrow =>
      cases hrow
      exact absurd rfl (h _ _)
  · rfl

/-- A row is evaluated by its first statement and then by the rest of it. -/
theorem evaluateFrom_eq (calculator : Calculator) (start : Nat) (keys : List Key) :
    calculator.evaluateFrom start keys =
      (calculator.firstStatement start keys).evaluation (calculator.firstLog start keys) := by
  rw [evaluateFrom, firstStatement, firstLog]
  cases Machine.solve calculator.setting start keys {} with
  | error fault machine => rfl
  | ok a machine =>
      obtain ⟨value, stop⟩ := a
      simp only
      split
      · next hrest =>
          rw [congrArg (calculator.afterValue value stop) hrest,
            congrArg (calculator.assignment value) hrest, assignment_nil, List.append_nil]
          rfl
      · next rest hrest =>
          rw [congrArg (calculator.afterValue value stop) hrest,
            congrArg (calculator.assignment value) hrest, assignment_of_ne (by simp),
            List.append_nil]
          rfl
      · next name rest hrest =>
          rw [congrArg (calculator.afterValue value stop) hrest,
            congrArg (calculator.assignment value) hrest]
          simp only [afterValue, assignment]
          cases calculator.memory.store? name 0 value with
          | none =>
              simp only [Option.isSome_none, Bool.false_eq_true, if_false, List.append_nil]
              rfl
          | some memory =>
              simp only [Option.isSome_some, if_true]
              split
              · rfl
              · rfl
              · next key rest hcolon hrest' =>
                  have hne : key ≠ .separator .colon := by
                    rintro rfl
                    exact hrest' hrest rfl HEq.rfl
                  rw [atEnd_of_ne hne]
                  rfl
      · next rest hother hrest =>
          rw [congrArg (calculator.afterValue value stop) hrest,
            congrArg (calculator.assignment value) hrest, assignment_of_untargeted hother,
            List.append_nil]
          simp only [afterValue]
          rfl
      · next key rest hcolon hassign hother hrest =>
          rw [congrArg (calculator.afterValue value stop) hrest,
            congrArg (calculator.assignment value) hrest, afterValue_of_ne hother,
            atEnd_of_ne hcolon, assignment_of_ne hother, List.append_nil]
          rfl

/-- The outcome of a row whose first statement has come this far. -/
def Progress.outcome : Progress → Except Fault Float × Calculator
  | failed fault calculator => (.error fault, calculator)
  | finished value calculator => (.ok value, calculator)
  | continues calculator start rest => (calculator.evaluateFrom start rest).outcome

/-- What becomes of a row does not depend on its log. -/
theorem outcome_evaluateFrom (calculator : Calculator) (start : Nat) (keys : List Key) :
    (calculator.evaluateFrom start keys).outcome =
      (calculator.firstStatement start keys).outcome := by
  rw [evaluateFrom_eq]
  cases calculator.firstStatement start keys <;> rfl

/-! ## Rows one after the other -/

namespace Progress

/-- What becomes of a statement when a colon and another row, which begins at an offset, come behind
its row. -/
def before (start : Nat) (row : List Key) : Progress → Progress
  | failed fault calculator => failed fault calculator
  | finished _ calculator => continues calculator start row
  | continues calculator stop rest => continues calculator stop (rest ++ .separator .colon :: row)

/-- The same statement, so many keys further on. -/
def shift (distance : Nat) : Progress → Progress
  | failed fault calculator => failed (fault.shift distance) calculator
  | finished value calculator => finished value calculator
  | continues calculator stop rest => continues calculator (stop + distance) rest

end Progress

theorem atEnd_append (calculator : Calculator) (value : Float) (stop : Nat) (rest row : List Key) :
    calculator.atEnd value stop (rest ++ .separator .colon :: row) =
      (calculator.atEnd value stop rest).before (stop + rest.length + 1) row := by
  cases rest with
  | nil => rfl
  | cons key rest =>
      by_cases hkey : key = .separator .colon
      · subst hkey
        rfl
      · rw [List.cons_append, atEnd_of_ne hkey, atEnd_of_ne hkey]
        rfl

theorem afterValue_append (calculator : Calculator) (value : Float) (stop : Nat)
    (rest row : List Key) :
    calculator.afterValue value stop (rest ++ .separator .colon :: row) =
      (calculator.afterValue value stop rest).before (stop + rest.length + 1) row := by
  cases rest with
  | nil => rfl
  | cons key rest =>
      by_cases hkey : key = .separator .assign
      · subst hkey
        cases rest with
        | nil => rfl
        | cons target rest =>
            cases target with
            | letter name =>
                simp only [List.cons_append, afterValue]
                cases calculator.memory.store? name 0 value with
                | none => rfl
                | some memory =>
                    have hend := atEnd_append { calculator with memory } value (stop + 2) rest row
                    have hlength : stop + 2 + rest.length = stop + (rest.length + 1 + 1) := by omega
                    rwa [hlength] at hend
            | _ => rfl
      · have hend := atEnd_append calculator value stop (key :: rest) row
        rwa [List.cons_append, ← afterValue_of_ne hkey, ← afterValue_of_ne hkey] at hend

/-- A row behind a colon does not change the statements before it. -/
theorem firstStatement_append (calculator : Calculator) (start : Nat) (keys row : List Key) :
    calculator.firstStatement start (keys ++ .separator .colon :: row) =
      (calculator.firstStatement start keys).before (start + keys.length + 1) row := by
  have htokens := tokenize_append_separator start keys .colon row
  unfold firstStatement
  rcases Machine.solve_add calculator.setting 0 htokens with
    ⟨value, stop, after, moved, hkeys, hrow⟩ | ⟨fault, after, moved, hkeys, hrow⟩
  · rw [Nat.add_zero] at hrow
    obtain ⟨hlow, hhigh⟩ := Machine.solve_inRow hkeys
    have hdrop := afterValue_append calculator value stop (keys.drop (stop - start)) row
    rw [hkeys, hrow]
    simp only [Nat.add_zero]
    rw [List.drop_append_of_le_length (by omega), hdrop, List.length_drop]
    congr 1
    omega
  · rw [Nat.add_zero, Fault.shift_zero] at hrow
    rw [hkeys, hrow]
    rfl

theorem atEnd_add (calculator : Calculator) (value : Float) (stop distance : Nat)
    (row : List Key) :
    calculator.atEnd value (stop + distance) row =
      (calculator.atEnd value stop row).shift distance := by
  cases row with
  | nil => rfl
  | cons key rest =>
      by_cases hkey : key = .separator .colon
      · subst hkey
        rw [atEnd_colon, atEnd_colon, Nat.add_right_comm]
        rfl
      · rw [atEnd_of_ne hkey, atEnd_of_ne hkey]
        rfl

theorem afterValue_add (calculator : Calculator) (value : Float) (stop distance : Nat)
    (row : List Key) :
    calculator.afterValue value (stop + distance) row =
      (calculator.afterValue value stop row).shift distance := by
  unfold afterValue
  split
  · cases calculator.memory.store? _ 0 value with
    | none => simp only [Progress.shift, Fault.shift, Nat.add_right_comm]
    | some memory =>
        simp only
        rw [Nat.add_right_comm, atEnd_add]
  · simp only [Progress.shift, Fault.shift, Nat.add_right_comm]
  · exact atEnd_add calculator value stop distance row

/-- Where a row stands makes no difference to its first statement but for the offsets. -/
theorem firstStatement_add (calculator : Calculator) (start distance : Nat) (keys : List Key) :
    calculator.firstStatement (start + distance) keys =
      (calculator.firstStatement start keys).shift distance := by
  unfold firstStatement
  rcases Machine.solve_add calculator.setting distance (Eq.refl (tokenize start keys)) with
    ⟨value, stop, after, moved, hkeys, hmoved⟩ | ⟨fault, after, moved, hkeys, hmoved⟩
  · rw [hkeys, hmoved]
    simp only
    rw [Nat.add_sub_add_right, afterValue_add]
  · rw [hkeys, hmoved]
    rfl

end Calculator
end PocketCalc
