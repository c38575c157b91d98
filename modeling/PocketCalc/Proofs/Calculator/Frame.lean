import PocketCalc.Proofs.Calculator.Completion
import PocketCalc.Proofs.Memory.Cells
import PocketCalc.Proofs.Solver.Failure

/-! What an evaluation changes. Only the statements that have been completed leave a trace, and each
of them in one cell at most: that of the variable it is assigned to. -/

namespace PocketCalc

/-- What a statement writes into the cell at a position. -/
def Statement.written? (position : Nat) (statement : Statement) : Option Float :=
  if (statement.target?.bind fun name => Memory.position? name 0) = some position then
    some statement.value
  else none

/-- What the last of the statements that write into the cell at a position leaves there. -/
def lastWritten? (position : Nat) (statements : List Statement) : Option Float :=
  (statements.filterMap (Statement.written? position)).getLast?

theorem lastWritten?_nil (position : Nat) : lastWritten? position [] = none := rfl

theorem lastWritten?_cons (position : Nat) (statement : Statement) (more : List Statement) :
    lastWritten? position (statement :: more) =
      (lastWritten? position more).or (statement.written? position) := by
  unfold lastWritten?
  cases hwritten : statement.written? position with
  | none => rw [List.filterMap_cons_none hwritten, Option.or_none]
  | some value =>
      rw [List.filterMap_cons_some hwritten, List.getLast?_cons]
      cases (more.filterMap (Statement.written? position)).getLast? with
      | none => rfl
      | some last => rfl

/-- The cell at a position is one to which the line assigns: behind an arrow stands its name. -/
def Line.Assigns (keys : Line) (position : Nat) : Prop :=
  ∃ place name, keys[place]? = some (.separator .assign) ∧
    keys[place + 1]? = some (.letter name) ∧ Memory.position? name 0 = some position

namespace Calculator

variable {keys : Line} {calculator next : Calculator} {start position : Nat}
  {statement : Statement} {statements : List Statement}
  {outcome : Except Fault Float × Calculator}

/-! ## One statement -/

/-- A statement leaves everything as it was but for the cell that it writes into. -/
theorem Completes.changes (h : Completes keys calculator statement next) :
    next.unit = calculator.unit ∧ next.memory.size = calculator.memory.size ∧
      ∀ position, next.memory.cells[position]? =
        (statement.written? position).or calculator.memory.cells[position]? := by
  cases h with
  | plain => exact ⟨rfl, rfl, fun position => rfl⟩
  | assigning _ _ _ _ hstore =>
      refine ⟨rfl, Memory.size_of_store? hstore, fun position => ?_⟩
      rw [Memory.cells_of_store? hstore, Statement.written?, Option.bind_some]
      split <;> rfl

/-- A statement writes only where the line assigns. -/
theorem Completes.assigns (h : Completes keys calculator statement next)
    (hwritten : (statement.written? position).isSome) : keys.Assigns position := by
  cases h with
  | plain => cases hwritten
  | @assigning start stop value name memory _ _ hassign htarget hstore =>
      refine ⟨stop, name, hassign, htarget, ?_⟩
      unfold Statement.written? at hwritten
      split at hwritten
      · next hposition => exact hposition
      · cases hwritten

/-! ## All statements -/

theorem Evaluates.changes (h : Evaluates keys calculator start statements outcome) :
    outcome.2.unit = calculator.unit ∧ outcome.2.memory.size = calculator.memory.size ∧
      ∀ position, outcome.2.memory.cells[position]? =
        (lastWritten? position statements).or calculator.memory.cells[position]? := by
  induction h with
  | breaks => exact ⟨rfl, rfl, fun position => rfl⟩
  | ends h | strays h =>
      obtain ⟨hunit, hsize, hcells⟩ := h.changes
      refine ⟨hunit, hsize, fun position => ?_⟩
      rw [hcells, lastWritten?_cons, lastWritten?_nil, Option.none_or]
  | continues h _ _ ih =>
      obtain ⟨hunit, hsize, hcells⟩ := h.changes
      obtain ⟨ihunit, ihsize, ihcells⟩ := ih
      refine ⟨ihunit.trans hunit, ihsize.trans hsize, fun position => ?_⟩
      rw [ihcells, hcells, lastWritten?_cons, Option.or_assoc]

theorem Evaluates.lastWritten?_eq_none (h : Evaluates keys calculator start statements outcome)
    (hposition : ¬ keys.Assigns position) : lastWritten? position statements = none := by
  have hone {calculator next : Calculator} {statement : Statement}
      (h : Completes keys calculator statement next) : statement.written? position = none :=
    Option.not_isSome_iff_eq_none.mp fun hwritten => hposition (h.assigns hwritten)
  induction h with
  | breaks => rfl
  | ends h | strays h => rw [lastWritten?_cons, hone h, lastWritten?_nil, Option.or_none]
  | continues h _ _ ih => rw [lastWritten?_cons, hone h, ih, Option.or_none]

/-- An evaluation does not fail for the text when that is a line. -/
theorem Evaluates.ne_unreadable (h : Evaluates keys calculator start statements outcome)
    (reason : String) : outcome.1 ≠ .error (.unreadable reason) := by
  induction h with
  | breaks h =>
      rintro ⟨⟩
      cases h with
      | unsolved hresult =>
          obtain ⟨place, hplace⟩ := Setting.offset_of_result_error hresult
          cases hplace
  | ends | strays => rintro ⟨⟩
  | continues _ _ _ ih => exact ih

/-- An evaluation, whatever comes of it, changes neither the angle unit nor the number of cells. A
text that is no line changes nothing. Otherwise a cell to which the line does not assign is as it
was, and every cell holds what the last statement to be completed wrote into it, if one did. A fault
is that of a statement that breaks off without a trace, or of what stands behind the last one to be
completed. -/
theorem evaluate_changes (calculator : Calculator) (text : String) :
    (calculator.evaluate text).calculator.unit = calculator.unit ∧
      (calculator.evaluate text).calculator.memory.size = calculator.memory.size ∧
      (∀ reason, (calculator.evaluate text).result = .error (.unreadable reason) →
        (calculator.evaluate text).calculator = calculator) ∧
      ∀ keys, Line.ofText text = .ok keys →
        (∀ position, ¬ keys.Assigns position →
          (calculator.evaluate text).calculator.memory.cells[position]? =
            calculator.memory.cells[position]?) ∧
        ∃ statements, Evaluates keys calculator 0 statements (calculator.evaluate text).outcome ∧
          (∀ others other, Evaluates keys calculator 0 others other →
            others = statements ∧ other = (calculator.evaluate text).outcome) ∧
          (∀ position, (calculator.evaluate text).calculator.memory.cells[position]? =
            (lastWritten? position statements).or calculator.memory.cells[position]?) ∧
          ∀ fault, (calculator.evaluate text).result = .error fault →
            (∃ start, keys.StartsStatement start ∧
              Breaks keys (calculator.evaluate text).calculator start fault) ∨
            ∃ statement ∈ statements.getLast?, fault = .malformed .strayKey statement.next := by
  cases hread : Line.ofText text with
  | error fault =>
      have hnothing : (calculator.evaluate text).calculator = calculator := by
        rw [evaluate, hread]
      refine ⟨congrArg unit hnothing, congrArg (Memory.size ∘ memory) hnothing,
        fun _ _ => hnothing, ?_⟩
      rintro _ ⟨⟩
  | ok keys =>
      obtain ⟨statements, hevaluates⟩ := exists_evaluates_of_ofText hread calculator
      obtain ⟨hunit, hsize, hcells⟩ := hevaluates.changes
      refine ⟨hunit, hsize, fun reason hresult => absurd hresult (hevaluates.ne_unreadable reason),
        ?_⟩
      rintro _ ⟨⟩
      refine ⟨fun position hposition => ?_, statements, hevaluates, fun others other hother => ?_,
        hcells, fun fault hfault => hevaluates.breaks_or_strays (.inl rfl) hfault⟩
      · refine (hcells position).trans ?_
        rw [hevaluates.lastWritten?_eq_none hposition, Option.none_or]
      · rw [evaluate_of_ofText hread]
        exact ⟨hevaluates.unique hother, hother.outcome_eq.symm⟩

/-- Both statements of `1->A:A+1->A2` are completed before the last digit is found astray, so that
`A` holds two. -/
theorem evaluate_changes_before_stray_key :
    Line.ofText "1->A:A+1->A2" = .ok [.digit 1, .separator .assign, .letter 'A', .separator .colon,
        .letter 'A', .operator .add, .digit 1, .separator .assign, .letter 'A', .digit 2] ∧
      (evaluate {} "1->A:A+1->A2").result = .error (.malformed .strayKey 9) ∧
      ∃ statements, Evaluates [.digit 1, .separator .assign, .letter 'A', .separator .colon,
          .letter 'A', .operator .add, .digit 1, .separator .assign, .letter 'A', .digit 2] {} 0
            statements (evaluate {} "1->A:A+1->A2").outcome ∧
        lastWritten? 0 statements = some 2.0 := by
  have hread : Line.ofText "1->A:A+1->A2" = .ok [.digit 1, .separator .assign, .letter 'A',
      .separator .colon, .letter 'A', .operator .add, .digit 1, .separator .assign, .letter 'A',
      .digit 2] := by decide +kernel
  have hresult : (evaluate {} "1->A:A+1->A2").result = .error (.malformed .strayKey 9) := by
    decide +kernel
  have hafter : (evaluate {} "1->A:A+1->A2").calculator.memory.cells[0]? = some 2.0 := by
    decide +kernel
  have hbefore : ({} : Calculator).memory.cells[0]? = some 0.0 := by decide +kernel
  obtain ⟨_, _, _, hline⟩ := evaluate_changes {} "1->A:A+1->A2"
  obtain ⟨_, statements, hevaluates, _, hcells, _⟩ := hline _ hread
  refine ⟨hread, hresult, statements, hevaluates, ?_⟩
  have hcell := hcells 0
  rw [hafter, hbefore] at hcell
  cases hlast : lastWritten? 0 statements with
  | none =>
      rw [hlast] at hcell
      exact absurd hcell (by decide +kernel)
  | some value =>
      rw [hlast] at hcell
      exact hcell.symm

end Calculator
end PocketCalc
