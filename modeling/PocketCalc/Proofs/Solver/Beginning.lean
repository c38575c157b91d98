import PocketCalc.Proofs.Solver.Outcome
import PocketCalc.Proofs.Solver.Solution
import PocketCalc.Proofs.Token.Rows

/-! How an expression that has a value begins. Nothing is asked of the first token, so that a row
may begin with an operator or with a degree mark as well. It then has a value only if there is an
operand too many behind it: two operands have to stand side by side somewhere. -/

namespace PocketCalc

/-- The first of the tokens is read at the first of the keys. -/
theorem read_of_head_tokenize {start : Nat} {keys : List Key} {first : Token}
    (h : first ∈ (tokenize start keys).1.head?) :
    ∃ key rest width, keys = key :: rest ∧
      TokenKind.read (key :: rest) = .ok (first.kind, width) := by
  cases keys with
  | nil =>
      rw [tokenize_nil] at h
      cases h
  | cons key rest =>
      cases hread : TokenKind.read (key :: rest) with
      | error index =>
          rw [tokenize_of_error hread] at h
          cases h
      | ok token =>
          obtain ⟨kind, width⟩ := token
          by_cases hend : kind.isEnd = true
          · rw [tokenize_of_isEnd kind width hread hend] at h
            cases h
          · simp only [Bool.not_eq_true] at hend
            rw [tokenize_of_read kind width hread hend] at h
            cases h
            exact ⟨key, rest, width, rfl, hread⟩

/-- A token that needs no operand before it begins with a key that starts an expression, and an
operator or a function is its own key. -/
theorem key_of_read {key : Key} {rest : List Key} {kind : TokenKind} {width : Nat}
    (h : TokenKind.read (key :: rest) = .ok (kind, width)) :
    (kind.needsOperand = false → key.startsExpression = true) ∧ ∀ own ∈ kind.key?, key = own := by
  unfold TokenKind.read at h
  split at h
  case h_12 n keys hkeys | h_13 keys hkeys =>
    cases hkeys
    obtain ⟨literal, _, rfl, rfl⟩ := TokenKind.literal_of_read h
    exact ⟨fun _ => rfl, by simp [TokenKind.key?]⟩
  all_goals
    cases h
    simp_all [TokenKind.needsOperand, TokenKind.key?, Key.startsExpression, Key.isPrefixFn,
      Key.isLetter]

namespace Machine

variable {setting : Setting} {machine after : Machine}

/-- With nothing on the stacks, a function written after its operand is only taken if it leaves its
operand alone. -/
theorem isMarker_of_take {f : PostfixFn} {offset : Nat} (hnumbers : machine.numbers = [])
    (hcommands : machine.commands = [])
    (h : take setting ⟨.postfixFn f, offset⟩ machine = .ok true after) : f.isMarker = true := by
  obtain ⟨_, settled, hsettle, hrest⟩ := bind_eq_ok h
  rw [settleUntil_of_commands_nil hcommands] at hsettle
  cases hsettle
  obtain ⟨_, applied, happly, _⟩ := bind_eq_ok hrest
  obtain ⟨_, recorded, hrecord, hpop⟩ := bind_eq_ok happly
  cases hmarker : f.isMarker with
  | true => rfl
  | false =>
      cases hrecord
      rw [hmarker] at hpop
      obtain ⟨value, popped, hpop, _⟩ := bind_eq_ok hpop
      simp only [popNumber, hnumbers] at hpop
      cases hpop

/-- With nothing on the stacks, a token that needs an operand before it is only taken if it is an
operator or a degree mark. -/
theorem isOperator_or_degreeMark_of_take {token : Token} (hnumbers : machine.numbers = [])
    (hcommands : machine.commands = []) (h : take setting token machine = .ok true after)
    (hneeds : token.kind.needsOperand = true) :
    token.kind.isOperator = true ∨ token.kind = .postfixFn .degreeMark := by
  obtain hop | hpost := isOperator_or_isPostfixFn_of_take hcommands h hneeds
  · exact .inl hop
  · obtain ⟨kind, offset⟩ := token
    cases kind with
    | postfixFn f =>
        have hmarker := isMarker_of_take hnumbers hcommands h
        cases f with
        | degreeMark => exact .inr rfl
        | _ => cases hmarker
    | _ => cases hpost

/-- A value takes a first token, and an operand too many behind a first token that needs one before
it. -/
theorem solve_head {start : Nat} {keys : List Key} {value : Float} {stop : Nat}
    (h : solve setting start keys {} = .ok (value, stop) after) :
    ∃ first ∈ (tokenize start keys).1.head?, first.kind.needsOperand = false ∨
      (first.kind.isOperator = true ∨ first.kind = .postfixFn .degreeMark) ∧
        0 < juxtapositions (tokenize start keys).1 := by
  obtain ⟨next, settled, below, last, htaken, _⟩ := solve_eq_ok h
  obtain ⟨_, left, _, first, hhead, hcount⟩ := numbers_of_solve h
  obtain ⟨behind, hrow⟩ : tokensBefore start keys stop <+: (tokenize start keys).1 :=
    List.takeWhile_prefix _
  obtain ⟨taken, hfirst⟩ := htaken.head first hhead
  refine ⟨first, by rw [← hrow]; exact List.mem_head?_append_of_mem_head? hhead, ?_⟩
  cases hneeds : first.kind.needsOperand with
  | false => exact .inl rfl
  | true =>
      rw [hneeds, Bool.toNat_true] at hcount
      have hmore := juxtapositions_le_append (tokensBefore start keys stop) behind
      rw [hrow] at hmore
      exact .inr ⟨isOperator_or_degreeMark_of_take rfl rfl hfirst hneeds, by omega⟩

end Machine

namespace Setting

/-- Where there is a value, the expression begins with a key that starts one, or else with an
operator or a degree mark and holds an operand right behind another. -/
theorem solve_begins (setting : Setting) (line : Line) (start : Nat) (value : Float)
    (h : (setting.solve line start).result = .ok value) :
    ∃ key, (line.drop start).head? = some key ∧ (key.startsExpression = true ∨
      (key.isOperator = true ∨ key = .postfixFn .degreeMark) ∧
        0 < juxtapositions (tokenize start (line.drop start)).1) := by
  obtain ⟨after, hrun⟩ := run_of_result_ok h
  obtain ⟨first, hhead, hfirst⟩ := Machine.solve_head hrun
  obtain ⟨key, rest, width, hkeys, hread⟩ := read_of_head_tokenize hhead
  obtain ⟨hstarts, hown⟩ := key_of_read hread
  refine ⟨key, by rw [hkeys, List.head?_cons], ?_⟩
  rcases hfirst with hneeds | ⟨hop | hmark, hjuxtaposed⟩
  · exact .inl (hstarts hneeds)
  · refine .inr ⟨.inl ?_, hjuxtaposed⟩
    cases hkind : first.kind with
    | operator op =>
        rw [hown (.operator op) (by rw [hkind]; rfl)]
        rfl
    | _ =>
        rw [hkind] at hop
        cases hop
  · refine .inr ⟨.inr ?_, hjuxtaposed⟩
    exact hown (.postfixFn .degreeMark) (by rw [hmark]; rfl)

/-- `+AB` is the sum of two cells. -/
theorem solve_begins_with_operator :
    (Setting.solve ⟨fun _ _ => some 2.0, .degrees⟩
        [.operator .add, .letter 'A', .letter 'B'] 0).result = .ok 4.0 ∧
      ∃ key, (List.drop 0 [Key.operator .add, .letter 'A', .letter 'B']).head? = some key ∧
        (key.startsExpression = true ∨ (key.isOperator = true ∨ key = .postfixFn .degreeMark) ∧
          0 < juxtapositions
            (tokenize 0 (List.drop 0 [.operator .add, .letter 'A', .letter 'B'])).1) := by
  have hvalue : (Setting.solve ⟨fun _ _ => some 2.0, .degrees⟩
      [.operator .add, .letter 'A', .letter 'B'] 0).result = .ok 4.0 := by decide +kernel
  exact ⟨hvalue, solve_begins _ _ _ _ hvalue⟩

/-- So a value does not mean that the first key starts an expression. -/
theorem not_forall_startsExpression :
    ¬ ∀ (setting : Setting) (line : Line) (start : Nat) (value : Float),
      (setting.solve line start).result = .ok value →
        ∃ key, (line.drop start).head? = some key ∧ key.startsExpression = true := by
  intro hall
  obtain ⟨key, hkey, hstarts⟩ := hall ⟨fun _ _ => some 2.0, .degrees⟩
    [.operator .add, .letter 'A', .letter 'B'] 0 4.0 (by decide +kernel)
  cases hkey
  cases hstarts

end Setting
end PocketCalc
