import PocketCalc.Proofs.Solver.Extent
import PocketCalc.Proofs.Solver.Progress
import PocketCalc.Proofs.Solver.Solution

/-! What a value says of the run that has found it. All the tokens before the end of the expression
have been taken, what stands at the end needs an operand before it, and settling what was pending
has left the value on top. Below the value there is a number for every operand right behind another:
only a number is kept from following an operand, and only a variable, a closing parenthesis or a
function written after its operand. Any other operand too many is passed over in silence. -/

namespace PocketCalc

/-- The tokens of a row that stand before an offset. -/
def tokensBefore (start : Nat) (keys : List Key) (stop : Nat) : List Token :=
  (tokenize start keys).1.takeWhile fun token => token.offset < stop

/-- Each token stands behind the one before it, and the end of the row behind all of them. -/
theorem pairwise_offset_tokenize (start : Nat) (keys : List Key) :
    ((tokenize start keys).1 ++ (tokenize start keys).2.token?.toList).Pairwise
      fun first second => first.offset < second.offset := by
  fun_induction tokenize start keys with
  | case1 start => exact List.pairwise_singleton _ _
  | case2 => exact List.Pairwise.nil
  | case3 start => exact List.pairwise_singleton _ _
  | case4 start key rest kind width hread hend tokens ending heq ih =>
      have hpos := (TokenKind.width_of_read hread).1 (by simpa using hend)
      have hrow := tokenize_inRow (start + width) (rest.drop (width - 1))
      rw [heq] at ih hrow
      refine List.Pairwise.cons (fun token htoken => ?_) ih
      rcases List.mem_append.mp htoken with htoken | htoken
      · have hlow := (hrow.1 token htoken).1
        change start < token.offset
        omega
      · cases ending with
        | malformed offset => cases htoken
        | stop offset =>
            obtain rfl := List.mem_singleton.mp htoken
            have hlow : start + width ≤ offset := hrow.2.1
            change start < offset
            omega

/-- Where a row of tokens is cut in two, the first part is what stands before the cut. -/
theorem tokensBefore_of_append {start : Nat} {keys : List Key} {taken behind : List Token}
    {token : Token} (htokens : (tokenize start keys).1 = taken ++ behind)
    (htoken : token ∈ (behind ++ (tokenize start keys).2.token?.toList).head?) :
    tokensBefore start keys token.offset = taken := by
  obtain ⟨rest, hrest⟩ := List.head?_eq_some_iff.mp htoken
  have hpairs := pairwise_offset_tokenize start keys
  rw [htokens, List.append_assoc, hrest] at hpairs
  have hbefore : ∀ other ∈ taken, other.offset < token.offset := fun other hother =>
    (List.pairwise_append.mp hpairs).2.2 other hother token List.mem_cons_self
  have hbehind : behind.takeWhile (fun other => other.offset < token.offset) = [] := by
    cases behind with
    | nil => rfl
    | cons first behind =>
        cases hrest
        exact List.takeWhile_cons_of_neg (by simp)
  rw [tokensBefore, htokens, List.takeWhile_append_of_pos (by simpa using hbefore), hbehind,
    List.append_nil]

namespace Machine

variable {setting : Setting} {machine settled after : Machine} {start stop : Nat} {keys : List Key}
  {value : Float}

/-- The machine with which solving begins. -/
abbrev started (start : Nat) (keys : List Key) : Machine := { events := [.started start keys] }

/-- A value is found by taking the tokens before the end and settling what is pending there. -/
theorem solve_eq_ok (h : solve setting start keys {} = .ok (value, stop) after) :
    ∃ next settled below, ∃ last : Token,
      Takes setting (started start keys) (tokensBefore start keys stop) next ∧
      last.FitsBehind (tokensBefore start keys stop) ∧ last.kind.needsOperand = true ∧
      settleUntil setting (fun _ => false) next = .ok () settled ∧
      settled.numbers = value :: below ∧
      after = { settled with events := .solved value stop :: settled.events } := by
  have hrun : (scan setting none (tokenize start keys).1 (tokenize start keys).2 >>=
      finish setting) (started start keys) = .ok (value, stop) after := h
  obtain ⟨place, scanned, hscan, hfinish⟩ := bind_eq_ok hrun
  obtain ⟨rfl, settled, below, hsettle, hvalue, hafter⟩ := finish_eq_ok hfinish
  obtain ⟨taken, behind, next, last, htokens, htaken, hlast, hfit, htake, rfl⟩ := scan_eq_ok hscan
  obtain ⟨hneeds, hlater⟩ := take_eq_ok_false htake
  rw [hlater] at hsettle
  rw [tokensBefore_of_append htokens hlast]
  exact ⟨next, settled, below, last, htaken, hfit, hneeds, hsettle, hvalue, hafter⟩

/-- Settling everything leaves nothing but the numbers to spare. -/
theorem surplus_of_settleUntil_never
    (h : settleUntil setting (fun _ => false) machine = .ok () settled) :
    machine.surplus = settled.numbers.length := by
  have hsurplus := (gains_settleUntil setting _ machine).of_ok h
  rw [Int.add_zero] at hsurplus
  rw [← hsurplus]
  simp [surplus, commands_of_settleUntil_never h, pendingOperators]

/-- The numbers below the value are the operands that no operator has joined to the others. -/
theorem numbers_of_solve (h : solve setting start keys {} = .ok (value, stop) after) :
    after.commands = [] ∧ ∃ left, after.numbers = value :: left ∧
      ∃ first ∈ (tokensBefore start keys stop).head?,
        left.length + first.kind.needsOperand.toNat =
          juxtapositions (tokensBefore start keys stop) := by
  obtain ⟨next, settled, left, last, htaken, hfit, hneeds, hsettle, hvalue, rfl⟩ := solve_eq_ok h
  have hnone : settled.commands = [] := commands_of_settleUntil_never hsettle
  have hspare : next.surplus = left.length + 1 := by
    rw [surplus_of_settleUntil_never hsettle, hvalue]
    rfl
  refine ⟨hnone, left, hvalue, ?_⟩
  cases htake : tokensBefore start keys stop with
  | nil =>
      -- with no token there is no number either
      rw [htake] at htaken
      rw [htaken.eq_start] at hspare
      have hempty : (started start keys).surplus = 0 := rfl
      omega
  | cons first more =>
      rw [htake] at htaken hfit
      have hcount := htaken.surplus_add_needsOperand rfl hfit hneeds
      exact ⟨first, rfl, by omega⟩

end Machine

namespace Setting

/-- A value does not mean that every operand has been used: as many are left below it as stand right
behind another operand, but for the one that a leading operator or degree mark makes up for. -/
theorem solve_operands_left (setting : Setting) (line : Line) (start : Nat) (value : Float)
    (h : (setting.solve line start).result = .ok value) :
    (setting.solve line start).machine.commands = [] ∧
      ∃ left, (setting.solve line start).machine.numbers = value :: left ∧
        ∃ first ∈ (tokensBefore start (line.drop start) (setting.solve line start).cursor).head?,
          left.length + first.kind.needsOperand.toNat = juxtapositions
            (tokensBefore start (line.drop start) (setting.solve line start).cursor) := by
  obtain ⟨after, hrun⟩ := run_of_result_ok h
  have hmachine : (setting.solve line start).machine = after := by rw [solve_of_ok hrun]
  rw [hmachine]
  exact Machine.numbers_of_solve hrun

/-- Of the three operands of `+AB(5)` a sum takes two, and one is left. -/
theorem solve_operands_left_by_sum :
    (Setting.solve ⟨fun _ _ => some 2.0, .degrees⟩
        [.operator .add, .letter 'A', .letter 'B', .openParen, .digit 5, .closeParen] 0).result =
          .ok 7.0 ∧
      ∃ left, (Setting.solve ⟨fun _ _ => some 2.0, .degrees⟩
          [.operator .add, .letter 'A', .letter 'B', .openParen, .digit 5, .closeParen]
            0).machine.numbers = 7.0 :: left ∧
        left.length + 1 = juxtapositions (tokensBefore 0
          [.operator .add, .letter 'A', .letter 'B', .openParen, .digit 5, .closeParen] 6) := by
  have hvalue : (Setting.solve ⟨fun _ _ => some 2.0, .degrees⟩
      [.operator .add, .letter 'A', .letter 'B', .openParen, .digit 5, .closeParen] 0).result =
        .ok 7.0 := by decide +kernel
  have hcursor : (Setting.solve ⟨fun _ _ => some 2.0, .degrees⟩
      [.operator .add, .letter 'A', .letter 'B', .openParen, .digit 5, .closeParen] 0).cursor =
        6 := by decide +kernel
  have hhead : (tokensBefore 0
      [.operator .add, .letter 'A', .letter 'B', .openParen, .digit 5, .closeParen] 6).head? =
        some ⟨.operator .add, 0⟩ := by decide +kernel
  obtain ⟨_, left, hnumbers, first, hfirst, hcount⟩ := solve_operands_left _ _ _ _ hvalue
  rw [hcursor] at hfirst hcount
  rw [List.drop_zero, hhead] at hfirst
  cases hfirst
  exact ⟨hvalue, left, hnumbers, hcount⟩

/-- So the value need not be the only number that is left. -/
theorem not_forall_numbers_eq_singleton :
    ¬ ∀ (setting : Setting) (line : Line) (start : Nat) (value : Float),
      (setting.solve line start).result = .ok value →
        (setting.solve line start).machine.numbers = [value] := by
  intro hall
  have hnumbers := hall ⟨fun _ _ => some 2.0, .degrees⟩ [.letter 'A', .letter 'B'] 0 2.0
    (by decide +kernel)
  have hlength : (Setting.solve ⟨fun _ _ => some 2.0, .degrees⟩ [.letter 'A', .letter 'B']
      0).machine.numbers.length = 2 := by decide +kernel
  rw [hnumbers] at hlength
  cases hlength

end Setting
end PocketCalc
