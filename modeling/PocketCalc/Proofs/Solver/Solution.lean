import PocketCalc.Solver.Basic

/-! What a run of the machine says about the solution of an expression in a line, and back. -/

namespace PocketCalc.Setting

variable {setting : Setting} {line : Line} {start : Nat} {after : Machine}

theorem solve_of_ok {v : Float} {stop : Nat}
    (h : Machine.solve setting start (line.drop start) {} = .ok (v, stop) after) :
    setting.solve line start = ⟨.ok v, stop, after⟩ := by
  simp only [solve, h]

theorem result_of_error {fault : Fault}
    (h : Machine.solve setting start (line.drop start) {} = .error fault after) :
    (setting.solve line start).result = .error fault := by
  cases fault <;> simp only [solve, h]

theorem cursor_of_error {fault : Fault} (hne : ∀ stop, fault ≠ .nothingToSolve stop)
    (h : Machine.solve setting start (line.drop start) {} = .error fault after) :
    (setting.solve line start).cursor = start := by
  cases fault with
  | nothingToSolve stop => exact absurd rfl (hne stop)
  | _ => simp only [solve, h]

theorem machine_of_error {fault : Fault}
    (h : Machine.solve setting start (line.drop start) {} = .error fault after) :
    (setting.solve line start).machine = after := by
  cases fault <;> simp only [solve, h]

/-- A value is found by a run that succeeds, and the cursor is where that run ends. -/
theorem run_of_result_ok {v : Float} (h : (setting.solve line start).result = .ok v) :
    ∃ after, Machine.solve setting start (line.drop start) {} =
      .ok (v, (setting.solve line start).cursor) after := by
  cases hrun : Machine.solve setting start (line.drop start) {} with
  | ok a after =>
      obtain ⟨w, stop⟩ := a
      rw [solve_of_ok hrun] at h ⊢
      cases h
      exact ⟨after, rfl⟩
  | error fault after =>
      rw [result_of_error hrun] at h
      cases h

/-- A fault is that of the run. -/
theorem run_of_result_error {fault : Fault}
    (h : (setting.solve line start).result = .error fault) :
    ∃ after, Machine.solve setting start (line.drop start) {} = .error fault after := by
  cases hrun : Machine.solve setting start (line.drop start) {} with
  | ok a after =>
      obtain ⟨w, stop⟩ := a
      rw [solve_of_ok hrun] at h
      cases h
  | error other after =>
      rw [result_of_error hrun] at h
      cases h
      exact ⟨after, rfl⟩

end PocketCalc.Setting
