import PocketCalc.Proofs.Expression.Delivery
import PocketCalc.Proofs.Expression.Grammar
import PocketCalc.Proofs.Expression.Scan
import PocketCalc.Proofs.Solver.Solution

/-! Solving computes the value of an expression. The tree that a line is read as is the reference:
the stacks come to its value or to its first fault wherever they are large enough, and they are
large enough exactly for the demands of the tree. -/

namespace PocketCalc

namespace Expression

open Machine

variable {setting : Setting} {machine : Machine} {line : Line} {e : Expression}

/-- The line may end after an expression. -/
theorem scan_nil_of_lastKind (e : Expression) (stop : Nat) :
    scan setting (some e.lastKind) [] (.stop stop) = pure stop :=
  scan_nil (mayFollow_lastKind rfl e) stop

/-- Solving a row that an expression spells comes down to evaluating the tree. -/
theorem solve_keys (h : e.IsReading 0) (start : Nat) :
    Machine.solve setting start e.keys {} =
      (record (.started start e.keys) >>= fun _ =>
        e.perform setting start >>= fun _ => conclude (start + e.keys.length)) {} := by
  let started : Machine := { events := [.started start e.keys] }
  have hrecord : record (.started start e.keys) {} = .ok () started := rfl
  have hscan : scan setting none (e.tokens start) (.stop (start + e.keys.length)) started =
      (e.advance setting start >>= fun _ => pure (start + e.keys.length)) started := by
    have hall := @scan_tokens setting started e 0 h (by decide) none awaitsOperand_none
      (guards_nil 0) start [] (.stop (start + e.keys.length))
    simp only [List.append_nil, scan_nil_of_lastKind] at hall
    exact hall
  rw [solve_eq_conclude, bind_of_ok hrecord, bind_of_ok hrecord, tokenize_keys h]
  simp only
  rw [bind_congr_left hscan, bind_assoc]
  simp only [pure_bind]
  have hnone : ∀ command ∈ started.commands.head?, (fun _ => false) command.kind = true := by
    rintro command ⟨⟩
  exact advance_bind_settleUntil (settles_never _) hnone start fun _ => conclude _

/-- An expression is never empty. -/
theorem value_ne_nothingToSolve (setting : Setting) (e : Expression) (start stop : Nat) :
    e.value setting start ≠ .error (.nothingToSolve stop) := by
  have hdomain (offset : Nat) (value? : Option Float) :
      orOutsideDomain offset value? ≠ .error (.nothingToSolve stop) := by
    cases value? <;> rintro ⟨⟩
  have hcell (name : Char) (index : Int) (offset : Nat) :
      cellValue setting name index offset ≠ .error (.nothingToSolve stop) := by
    unfold cellValue
    split <;> rintro ⟨⟩
  -- a fault of an operand is passed on, and the operation itself has one of its own
  have hbind (x : Except Fault Float) (g : Float → Except Fault Float)
      (hx : x ≠ .error (.nothingToSolve stop)) (hg : ∀ v, g v ≠ .error (.nothingToSolve stop)) :
      (x >>= g) ≠ .error (.nothingToSolve stop) := by
    cases x with
    | ok v => exact hg v
    | error fault => exact fun h => hx (congrArg Except.error (Except.error.inj h))
  induction e generalizing start with
  | number digits =>
      unfold value
      cases Literal.read digits <;> rintro ⟨⟩
  | cell name => exact hcell name 0 start
  | indexed name index ih => exact hbind _ _ (ih _) fun i => hcell name _ _
  | paren inner ih => exact ih _
  | prefixed f operand ih => exact hbind _ _ (ih _) fun x => hdomain _ _
  | postfixed operand f ih => exact hbind _ _ (ih _) fun x => hdomain _ _
  | binary left op right ihl ihr =>
      exact hbind _ _ (ihl _) fun a => hbind _ _ (ihr _) fun b => hdomain _ _

end Expression

/-! ## Solutions -/

namespace Setting

open Machine

variable {setting : Setting} {line : Line} {start : Nat} {after : Machine}

/-- Solving ends in the value of the expression and at its last key, or in its first fault and where
it began, unless there is an overflow. -/
theorem solve_keys_delivers (setting : Setting) {e : Expression} (h : e.IsReading 0)
    (hkeys : line.drop start = e.keys) :
    (∃ v, e.value setting start = .ok v ∧
        e.overflow? numberLimit commandLimit start = none ∧
        (setting.solve line start).result = .ok v ∧
        (setting.solve line start).cursor = start + e.keys.length) ∨
      (∃ fault, e.value setting start = .error fault ∧
        (setting.solve line start).result = .error fault ∧
        (setting.solve line start).cursor = start) ∨
      ∃ offset, e.overflow? numberLimit commandLimit start = some offset ∧
        (setting.solve line start).result = .error (.stackFull offset) ∧
        (setting.solve line start).cursor = start := by
  let started : Machine := { events := [.started start e.keys] }
  have hrecord : record (.started start e.keys) {} = .ok () started := rfl
  have hperform : Delivers (e.perform setting start) started (e.value setting start)
      (e.overflow? numberLimit commandLimit start) [] := e.performDelivers h start started
  cases hrun : e.perform setting start started with
  | ok u after =>
      obtain ⟨hfits, v, hv, hn⟩ := (delivers_ok_iff hrun).mp hperform
      have hsolve : Machine.solve setting start (line.drop start) {} =
          .ok (v, start + e.keys.length)
            { after with events := .solved v (start + e.keys.length) :: after.events } := by
        rw [hkeys, e.solve_keys h, bind_of_ok hrecord, bind_of_ok hrun, conclude_of_numbers hn]
      refine .inl ⟨v, hv, hfits, ?_, ?_⟩ <;> rw [solve_of_ok hsolve]
  | error fault after =>
      have hsolve : Machine.solve setting start (line.drop start) {} = .error fault after := by
        rw [hkeys, e.solve_keys h, bind_of_ok hrecord, bind_of_error hrun]
      have hresult := result_of_error hsolve
      rcases (delivers_error_iff hrun).mp hperform with hv | ⟨offset, hoverflow, rfl⟩
      · have hne : ∀ stop, fault ≠ .nothingToSolve stop := by
          rintro stop rfl
          exact e.value_ne_nothingToSolve setting start stop hv
        exact .inr (.inl ⟨fault, hv, hresult, cursor_of_error hne hsolve⟩)
      · have hne : ∀ stop, Fault.stackFull offset ≠ .nothingToSolve stop := by
          rintro stop ⟨⟩
        exact .inr (.inr ⟨offset, hoverflow, hresult, cursor_of_error hne hsolve⟩)

/-- A line that is an expression is solved to the value of the expression, and to its end, or to its
first fault, and then the cursor has not moved. Only on stacks too small for the tree there may be
an overflow instead. -/
theorem solve_readsExpression (setting : Setting) {line : Line} {e : Expression}
    (h : ReadsExpression 0 line e []) :
    (e.numberDemand ≤ numberLimit → e.commandDemand ≤ commandLimit →
        (setting.solve line 0).result = e.value setting 0) ∧
      ((setting.solve line 0).result = e.value setting 0 ∨
        ∃ offset, e.overflow? numberLimit commandLimit 0 = some offset ∧
          (setting.solve line 0).result = .error (.stackFull offset)) ∧
      (∀ v, (setting.solve line 0).result = .ok v →
        (setting.solve line 0).cursor = line.length) ∧
      ∀ fault, (setting.solve line 0).result = .error fault →
        (setting.solve line 0).cursor = 0 := by
  obtain ⟨rfl, hr⟩ := (readsExpression_iff 0 line e).mp h
  have hkeys : e.keys.drop 0 = e.keys := List.drop_zero
  rcases solve_keys_delivers setting hr hkeys with
    ⟨v, hv, _, hresult, hcursor⟩ | ⟨fault, hv, hresult, hcursor⟩ |
      ⟨offset, hoverflow, hresult, hcursor⟩
  · rw [hresult, hv, hcursor, Nat.zero_add]
    refine ⟨fun _ _ => rfl, .inl rfl, fun _ _ => rfl, fun fault hfault => ?_⟩
    cases hfault
  · rw [hresult, hv, hcursor]
    refine ⟨fun _ _ => rfl, .inl rfl, fun w hw => ?_, fun _ _ => rfl⟩
    cases hw
  · rw [hresult, hcursor]
    refine ⟨fun hn hc => ?_, .inr ⟨offset, hoverflow, rfl⟩, fun w hw => ?_, fun _ _ => rfl⟩
    · rw [(e.overflow?_eq_none_iff numberLimit commandLimit 0).mpr ⟨hn, hc⟩] at hoverflow
      cases hoverflow
    · cases hw

/-- A sign binds less tightly than the power before it and more tightly than the product after it:
`2^~3*4`. -/
theorem solve_power_of_minus :
    ReadsExpression 0
        [.digit 2, .operator .power, .prefixFn .minus, .digit 3, .operator .multiply, .digit 4]
        (.binary (.binary (.number [.digit 2]) .power (.prefixed .minus (.number [.digit 3])))
          .multiply (.number [.digit 4])) [] ∧
      (Setting.solve ⟨fun _ _ => none, .degrees⟩
          [.digit 2, .operator .power, .prefixFn .minus, .digit 3, .operator .multiply, .digit 4]
          0).result =
        Expression.value ⟨fun _ _ => none, .degrees⟩ 0
          (.binary (.binary (.number [.digit 2]) .power (.prefixed .minus (.number [.digit 3])))
            .multiply (.number [.digit 4])) := by
  have hreads := (readsExpression_iff 0
    [.digit 2, .operator .power, .prefixFn .minus, .digit 3, .operator .multiply, .digit 4]
    (.binary (.binary (.number [.digit 2]) .power (.prefixed .minus (.number [.digit 3])))
      .multiply (.number [.digit 4]))).mpr ⟨rfl, by decide⟩
  exact ⟨hreads, (solve_readsExpression _ hreads).1 (by decide) (by decide)⟩

end Setting
end PocketCalc
