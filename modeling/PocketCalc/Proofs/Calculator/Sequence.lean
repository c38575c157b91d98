import PocketCalc.Proofs.Calculator.Statements
import PocketCalc.Proofs.Line.Reading

/-! Statements in sequence. A colon between two texts makes the second one start where the first one
has left the calculator, and a fault in the first one keeps the second one from being evaluated. -/

namespace PocketCalc

namespace Calculator

/-! ## The rest of a row -/

theorem atEnd_continues {calculator next : Calculator} {value : Float} {stop start : Nat}
    {row rest : List Key} (h : calculator.atEnd value stop row = .continues next start rest) :
    stop < start ∧ start + rest.length = stop + row.length := by
  cases row with
  | nil => cases h
  | cons key row =>
      by_cases hkey : key = .separator .colon
      · subst hkey
        cases h
        exact ⟨Nat.lt_succ_self stop, by simp only [List.length_cons]; omega⟩
      · rw [atEnd_of_ne hkey] at h
        cases h

theorem afterValue_continues {calculator next : Calculator} {value : Float} {stop start : Nat}
    {row rest : List Key} (h : calculator.afterValue value stop row = .continues next start rest) :
    stop < start ∧ start + rest.length = stop + row.length := by
  unfold afterValue at h
  split at h
  · split at h
    · cases h
    · have hend := atEnd_continues h
      simp only [List.length_cons]
      omega
  · cases h
  · exact atEnd_continues h

/-- The next statement begins behind the first one, and its row ends where the whole row ends. -/
theorem firstStatement_continues {calculator next : Calculator} {start stop : Nat}
    {keys rest : List Key}
    (h : calculator.firstStatement start keys = .continues next stop rest) :
    start < stop ∧ stop + rest.length = start + keys.length := by
  unfold firstStatement at h
  split at h
  · cases h
  · next value last machine hsolve =>
      obtain ⟨hlow, hhigh⟩ := Machine.solve_inRow hsolve
      have hrest := afterValue_continues h
      rw [List.length_drop] at hrest
      omega

/-- What holds of a row if it holds of the row behind its first statement holds of all rows. -/
theorem statements_induction {motive : Calculator → Nat → List Key → Prop}
    (step : ∀ calculator start keys,
      (∀ next stop rest, calculator.firstStatement start keys = .continues next stop rest →
        motive next stop rest) → motive calculator start keys)
    (calculator : Calculator) (start : Nat) (keys : List Key) : motive calculator start keys := by
  induction hlength : keys.length using Nat.strongRecOn generalizing calculator start keys with
  | ind length ih =>
      refine step calculator start keys fun next stop rest h => ?_
      -- the place behind a statement is further on, so that the rest of the row is shorter
      have hrest := firstStatement_continues h
      exact ih rest.length (by omega) next stop rest rfl

/-! ## Rows of statements -/

/-- Where a row stands makes no difference to its evaluation but for the offset of its fault. -/
theorem outcome_evaluateFrom_add (distance : Nat) (calculator : Calculator) (start : Nat)
    (keys : List Key) :
    (calculator.evaluateFrom (start + distance) keys).outcome =
      (calculator.evaluateFrom start keys).outcome.map (Except.mapError (Fault.shift distance))
        id := by
  induction calculator, start, keys using statements_induction with
  | step calculator start keys ih =>
      rw [outcome_evaluateFrom, outcome_evaluateFrom calculator start keys, firstStatement_add]
      cases hfirst : calculator.firstStatement start keys with
      | failed fault next => rfl
      | finished value next => rfl
      | continues next stop rest => exact ih next stop rest hfirst

/-- A row behind a colon is evaluated where the row before it has ended without a fault. -/
theorem outcome_evaluateFrom_append (row : List Key) (calculator : Calculator) (start : Nat)
    (keys : List Key) :
    (calculator.evaluateFrom start (keys ++ .separator .colon :: row)).outcome =
      match (calculator.evaluateFrom start keys).outcome with
      | (.error fault, next) => (.error fault, next)
      | (.ok _, next) => (next.evaluateFrom (start + keys.length + 1) row).outcome := by
  induction calculator, start, keys using statements_induction with
  | step calculator start keys ih =>
      rw [outcome_evaluateFrom, outcome_evaluateFrom calculator start keys, firstStatement_append]
      cases hfirst : calculator.firstStatement start keys with
      | failed fault next => rfl
      | finished value next => rfl
      | continues next stop rest =>
          have hrest := ih next stop rest hfirst
          have hends := (firstStatement_continues hfirst).2
          simp only [Progress.before, Progress.outcome]
          rw [hrest, hends]

/-! ## Texts -/

theorem evaluate_of_ofText {text : String} {line : Line} (h : Line.ofText text = .ok line)
    (calculator : Calculator) : calculator.evaluate text = calculator.evaluateFrom 0 line := by
  rw [evaluate, h]

theorem ofText_append_colon {first second : String} {line next : Line}
    (hfirst : Line.ofText first = .ok line) (hsecond : Line.ofText second = .ok next) :
    Line.ofText (first ++ ":" ++ second) = .ok (line ++ .separator .colon :: next) := by
  have hlist : (first ++ ":" ++ second).toList = first.toList ++ ':' :: second.toList := by
    simp [String.toList_append]
  rw [Line.ofText, hlist]
  exact Line.read_append_colon hfirst hsecond

/-- Two texts with a colon between them are evaluated like the first and then, unless that fails,
the second on the calculator that the first leaves. A fault in the second is found behind the keys
of the first and the colon. -/
theorem evaluate_append_colon {first second : String} {line next : Line}
    (hfirst : Line.ofText first = .ok line) (hsecond : Line.ofText second = .ok next)
    (calculator : Calculator) :
    (∀ fault, (calculator.evaluate first).result = .error fault →
        (calculator.evaluate (first ++ ":" ++ second)).result = .error fault ∧
        (calculator.evaluate (first ++ ":" ++ second)).calculator =
          (calculator.evaluate first).calculator) ∧
      ∀ value, (calculator.evaluate first).result = .ok value →
        (calculator.evaluate (first ++ ":" ++ second)).result =
          ((calculator.evaluate first).calculator.evaluate second).result.mapError
            (Fault.shift (line.length + 1)) ∧
        (calculator.evaluate (first ++ ":" ++ second)).calculator =
          ((calculator.evaluate first).calculator.evaluate second).calculator := by
  have hboth := outcome_evaluateFrom_append next calculator 0 line
  rw [evaluate_of_ofText hfirst, evaluate_of_ofText (ofText_append_colon hfirst hsecond),
    evaluate_of_ofText hsecond]
  constructor
  · intro fault hfault
    have hfailed : (calculator.evaluateFrom 0 line).outcome =
        (.error fault, (calculator.evaluateFrom 0 line).calculator) := Prod.ext hfault rfl
    rw [hfailed] at hboth
    exact Prod.mk.inj hboth
  · intro value hvalue
    have hfinished : (calculator.evaluateFrom 0 line).outcome =
        (.ok value, (calculator.evaluateFrom 0 line).calculator) := Prod.ext hvalue rfl
    rw [hfinished] at hboth
    simp only [Nat.add_assoc] at hboth
    rw [outcome_evaluateFrom_add] at hboth
    exact Prod.mk.inj hboth

/-- The first text assigns, and the second, which reads the variable, has a fault at its sign of
division: `1->A` and `A:2/0`. -/
theorem evaluate_append_colon_of_assignment :
    Line.ofText "1->A" = .ok [.digit 1, .separator .assign, .letter 'A'] ∧
      (Calculator.evaluate {} "1->A").result = .ok 1.0 ∧
      (Calculator.evaluate {} ("1->A" ++ ":" ++ "A:2/0")).result =
        ((Calculator.evaluate {} "1->A").calculator.evaluate "A:2/0").result.mapError
          (Fault.shift 4) := by
  have hfirst : Line.ofText "1->A" = .ok [.digit 1, .separator .assign, .letter 'A'] := by
    decide +kernel
  have hsecond : Line.ofText "A:2/0" =
      .ok [.letter 'A', .separator .colon, .digit 2, .operator .divide, .digit 0] := by
    decide +kernel
  have hvalue : (Calculator.evaluate {} "1->A").result = .ok 1.0 := by
    decide +kernel
  exact ⟨hfirst, hvalue, ((evaluate_append_colon hfirst hsecond {}).2 1.0 hvalue).1⟩

end Calculator
end PocketCalc
