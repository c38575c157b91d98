import PocketCalc.Proofs.Expression.Correctness

/-! How much the stacks hold. Whether an expression with a value is solved depends on its two
demands alone, and where it is not, the first token in the line that finds its stack full is at
fault. -/

namespace PocketCalc

namespace Expression

/-- The fault is at the first of all tokens that find their stack full. -/
theorem first_of_overflow?_eq_some {e : Expression} {level : Nat} (h : e.IsReading level)
    {start offset : Nat} (ho : e.overflow? numberLimit commandLimit start = some offset) :
    ∃ push ∈ e.pushes start 0 0, push.isFull = true ∧ push.offset = offset ∧
      ∀ other ∈ e.pushes start 0 0, other.isFull = true → push.offset ≤ other.offset := by
  have hfind : ((e.pushes start 0 0).find? Push.isFull).map Push.offset = some offset := by
    rw [← ho]
    exact (e.overflow?_eq_find? start 0 0).symm
  obtain ⟨push, hp, hoffset⟩ := Option.map_eq_some_iff.mp hfind
  obtain ⟨hfull, before, after, hsplit, hbefore⟩ := List.find?_eq_some_iff_append.mp hp
  refine ⟨push, by simp [hsplit], hfull, hoffset, fun other hother hotherFull => ?_⟩
  have hordered := pairwise_pushes h start 0 0
  rw [hsplit] at hordered hother
  rcases List.mem_append.mp hother with hother | hother
  · have hroom := hbefore other hother
    simp [hotherFull] at hroom
  · rcases List.mem_cons.mp hother with rfl | hother
    · exact Nat.le_refl _
    · have hlater := (List.pairwise_append.mp hordered).2.1
      exact Nat.le_of_lt ((List.pairwise_cons.mp hlater).1 other hother)

end Expression

namespace Setting

/-- An expression that has a value is solved exactly if it needs no more than nine numbers and
twenty commands. Otherwise the first token that finds its stack full is at fault. -/
theorem solve_capacity (setting : Setting) {line : Line} {e : Expression} {v : Float}
    (h : ReadsExpression 0 line e []) (hv : e.value setting 0 = .ok v) :
    ((∃ w, (setting.solve line 0).result = .ok w) ↔
        e.numberDemand ≤ 9 ∧ e.commandDemand ≤ 20) ∧
      (¬ (e.numberDemand ≤ 9 ∧ e.commandDemand ≤ 20) →
        ∃ push ∈ e.pushes 0 0 0, push.isFull = true ∧
          (∀ other ∈ e.pushes 0 0 0, other.isFull = true → push.offset ≤ other.offset) ∧
          (setting.solve line 0).result = .error (.stackFull push.offset)) := by
  obtain ⟨rfl, hr⟩ := (readsExpression_iff 0 line e).mp h
  have hkeys : e.keys.drop 0 = e.keys := List.drop_zero
  have hfits := e.overflow?_eq_none_iff numberLimit commandLimit 0
  rcases solve_keys_delivers setting hr hkeys with
    ⟨w, _, hnone, hresult, _⟩ | ⟨fault, hfault, _⟩ | ⟨offset, hsome, hresult, _⟩
  · have hdemands := hfits.mp hnone
    exact ⟨⟨fun _ => hdemands, fun _ => ⟨w, hresult⟩⟩, fun hlarge => absurd hdemands hlarge⟩
  · rw [hv] at hfault
    cases hfault
  · have hlarge : ¬ (e.numberDemand ≤ 9 ∧ e.commandDemand ≤ 20) := fun hdemands => by
      rw [hfits.mpr hdemands] at hsome
      cases hsome
    refine ⟨⟨fun ⟨w, hw⟩ => ?_, fun hdemands => absurd hdemands hlarge⟩, fun _ => ?_⟩
    · rw [hresult] at hw
      cases hw
    · obtain ⟨push, hmem, hfull, rfl, hfirst⟩ := Expression.first_of_overflow?_eq_some hr hsome
      exact ⟨push, hmem, hfull, hfirst, hresult⟩

/-- A variable in twenty-one pairs of parentheses has a value and is out of reach. -/
theorem solve_nested_parens :
    (Nat.repeat Expression.paren 21 (.cell 'A')).value ⟨fun _ _ => some 1.0, .degrees⟩ 0 = .ok 1.0 ∧
      ∃ push ∈ (Nat.repeat Expression.paren 21 (.cell 'A')).pushes 0 0 0, push.isFull = true ∧
        (∀ other ∈ (Nat.repeat Expression.paren 21 (.cell 'A')).pushes 0 0 0,
          other.isFull = true → push.offset ≤ other.offset) ∧
        (Setting.solve ⟨fun _ _ => some 1.0, .degrees⟩
          (Nat.repeat Expression.paren 21 (.cell 'A')).keys 0).result =
            .error (.stackFull push.offset) := by
  have hreads := (readsExpression_iff 0 _ (Nat.repeat Expression.paren 21 (.cell 'A'))).mpr
    ⟨rfl, by decide⟩
  have hvalue : (Nat.repeat Expression.paren 21 (.cell 'A')).value
      ⟨fun _ _ => some 1.0, .degrees⟩ 0 = .ok 1.0 := rfl
  exact ⟨hvalue, (solve_capacity _ hreads hvalue).2 (by decide)⟩

end Setting
end PocketCalc
