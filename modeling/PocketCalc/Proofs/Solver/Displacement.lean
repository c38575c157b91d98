import PocketCalc.Proofs.Solver.Relocation
import PocketCalc.Proofs.Solver.Solution
import PocketCalc.Proofs.Token.Rows

/-! Where an expression stands in a line makes no difference but for the offsets: all of them are so
many keys further on. -/

namespace PocketCalc

/-- The same fault, so many keys further on. -/
def Fault.shift (distance : Nat) : Fault → Fault
  | malformed cause offset => malformed cause (offset + distance)
  | outsideDomain offset => outsideDomain (offset + distance)
  | stackFull offset => stackFull (offset + distance)
  | noSuchCell offset => noSuchCell (offset + distance)
  | nothingToSolve offset => nothingToSolve (offset + distance)
  | unreadable reason => unreadable reason

theorem Fault.shift_zero (fault : Fault) : fault.shift 0 = fault := by
  cases fault <;> rfl

theorem Fault.relocate_add (distance : Nat) (fault : Fault) :
    fault.relocate (· + distance) = fault.shift distance := by
  cases fault <;> rfl

theorem tokenize_add (start distance : Nat) (keys : List Key) :
    tokenize (start + distance) keys =
      ((tokenize start keys).1.map (Token.relocate (· + distance)),
        (tokenize start keys).2.relocate (· + distance)) := by
  fun_induction tokenize start keys with
  | case1 start =>
      rw [tokenize]
      rfl
  | case2 start key rest index hread =>
      rw [tokenize, hread]
      simp only [List.map_nil, Ending.relocate, Nat.add_right_comm]
  | case3 start key rest kind width hread hend =>
      rw [tokenize, hread]
      simp only [hend, if_true, List.map_nil, Ending.relocate]
  | case4 start key rest kind width hread hend tokens ending heq ih =>
      rw [heq, Nat.add_right_comm] at ih
      rw [tokenize, hread]
      simp only [hend, Bool.false_eq_true, if_false]
      rw [ih]
      rfl

namespace Machine

/-- Rows with the same tokens are solved alike, wherever they stand. -/
theorem relocates_solve (setting : Setting) {start : Nat} (distance : Nat) {keys other : List Key}
    (h : tokenize start other = tokenize start keys) :
    Relocates (· + distance) (fun (value, stop) => (value, stop + distance))
      (solve setting start keys) (solve setting (start + distance) other) := by
  rw [solve_eq_finish, solve_eq_finish, tokenize_add, h]
  exact (relocates_record _ _).bind fun _ => relocates_scan_finish setting none _ _

/-- Rows with the same tokens have the same value with its end so much further on, or the same fault
further on. -/
theorem solve_add (setting : Setting) {start : Nat} (distance : Nat) {keys other : List Key}
    (h : tokenize start other = tokenize start keys) :
    (∃ value stop after moved,
        solve setting start keys {} = .ok (value, stop) after ∧
        solve setting (start + distance) other {} = .ok (value, stop + distance) moved) ∨
      ∃ fault after moved,
        solve setting start keys {} = .error fault after ∧
        solve setting (start + distance) other {} = .error (fault.shift distance) moved := by
  have hend := relocates_solve setting distance h {} {} ⟨rfl, rfl⟩
  cases hrun : solve setting start keys {} with
  | ok a after =>
      cases hmoved : solve setting (start + distance) other {} with
      | ok b moved =>
          rw [hrun, hmoved] at hend
          obtain ⟨rfl, _⟩ := hend
          exact .inl ⟨a.1, a.2, after, moved, rfl, rfl⟩
      | error fault moved =>
          rw [hrun, hmoved] at hend
          cases hend
  | error fault after =>
      cases hmoved : solve setting (start + distance) other {} with
      | ok b moved =>
          rw [hrun, hmoved] at hend
          cases hend
      | error other moved =>
          rw [hrun, hmoved] at hend
          exact .inr ⟨fault, after, moved, rfl, by rw [hend, Fault.relocate_add]⟩

end Machine

namespace Setting

/-- Rows with the same tokens have the same solution, but that every offset is further on by the
keys before the row. -/
theorem solve_append_of_tokenize (setting : Setting) {keys row : Line}
    (h : tokenize 0 row = tokenize 0 keys) (before : Line) :
    (setting.solve (before ++ row) before.length).result =
        (setting.solve keys 0).result.mapError (Fault.shift before.length) ∧
      (setting.solve (before ++ row) before.length).cursor =
        (setting.solve keys 0).cursor + before.length := by
  have hkeys : keys.drop 0 = keys := List.drop_zero
  have hrow : (before ++ row).drop before.length = row := List.drop_left
  rcases Machine.solve_add setting before.length h with
    ⟨value, stop, after, moved, hrun, hmoved⟩ | ⟨fault, after, moved, hrun, hmoved⟩
  · rw [Nat.zero_add, ← hrow] at hmoved
    rw [← hkeys] at hrun
    rw [solve_of_ok hrun, solve_of_ok hmoved]
    exact ⟨rfl, rfl⟩
  · rw [Nat.zero_add, ← hrow] at hmoved
    rw [← hkeys] at hrun
    rw [result_of_error hrun, result_of_error hmoved]
    refine ⟨rfl, ?_⟩
    by_cases hempty : ∃ stop, fault = .nothingToSolve stop
    · obtain ⟨stop, rfl⟩ := hempty
      simp only [solve, hrun, hmoved, Fault.shift]
    · have hne : ∀ stop, fault ≠ .nothingToSolve stop := fun stop heq => hempty ⟨stop, heq⟩
      have hshift : ∀ stop, fault.shift before.length ≠ .nothingToSolve stop := by
        intro stop heq
        cases fault <;> cases heq
        exact hne _ rfl
      rw [cursor_of_error hne hrun, cursor_of_error hshift hmoved, Nat.zero_add]

/-- What stands before an expression in a line, and what stands behind a separator after it, has no
part in its solution: the value is the same, or the fault is of the same kind, and every offset is
further on by the keys before the expression. -/
theorem solve_within_line (setting : Setting) (before keys after : Line) (s : Separator) :
    ((setting.solve (before ++ keys) before.length).result =
          (setting.solve keys 0).result.mapError (Fault.shift before.length) ∧
        (setting.solve (before ++ keys) before.length).cursor =
          (setting.solve keys 0).cursor + before.length) ∧
      (setting.solve (before ++ keys ++ .separator s :: after) before.length).result =
          (setting.solve keys 0).result.mapError (Fault.shift before.length) ∧
        (setting.solve (before ++ keys ++ .separator s :: after) before.length).cursor =
          (setting.solve keys 0).cursor + before.length := by
  have hseparated := tokenize_append_separator 0 keys s after
  rw [List.append_assoc]
  exact ⟨setting.solve_append_of_tokenize rfl before,
    setting.solve_append_of_tokenize hseparated before⟩

end Setting
end PocketCalc
