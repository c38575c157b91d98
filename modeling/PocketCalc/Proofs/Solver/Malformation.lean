import PocketCalc.Proofs.Literal.Spoiling
import PocketCalc.Proofs.Solver.Progress
import PocketCalc.Proofs.Solver.Solution
import PocketCalc.Proofs.Token.Rows

/-! What makes an expression malformed. Unless it begins with an operator or a function that is
written after its operand, no operand ever goes missing: the neighbours that fit together always
supply enough of them. What is left are spoiled numbers, neighbours that do not fit, and closing
parentheses that close none. -/

namespace PocketCalc

/-- Reading one token after the other from `start` comes to the offset. -/
inductive TokenAt (line : Line) (start : Nat) : Nat → Prop where
  | start : TokenAt line start start
  | next {offset width : Nat} {kind : TokenKind} (h : TokenAt line start offset)
      (hread : TokenKind.read (line.drop offset) = .ok (kind, width)) (hend : kind.isEnd = false) :
      TokenAt line start (offset + width)

/-- The tokens of the expression at an offset, and the one at its end. -/
def tokensWithEnd (line : Line) (start : Nat) : List Token :=
  (tokenize start (line.drop start)).1 ++ (tokenize start (line.drop start)).2.token?.toList

/-- The reasons for which the expression at `start` is malformed, each with the offset that shows
it. -/
inductive Malformed (line : Line) (start : Nat) : Malformation → Nat → Prop where
  | number {first index : Nat} (hfirst : TokenAt line start first)
      (hread : Literal.read (line.drop first) = .error index)
      (hspoils : SpoilsLiteral (line.drop first) index) :
      Malformed line start .number (first + index)
  | neighbours {before behind : List Token} {previous current : Token}
      (htokens : tokensWithEnd line start = before ++ previous :: current :: behind)
      (hpair : current.kind.mayFollow previous.kind = false) :
      Malformed line start .neighbours current.offset
  | unopenedParen {before behind : List Token} {offset : Nat}
      (htokens : tokensWithEnd line start = before ++ ⟨.closeParen, offset⟩ :: behind)
      (hopen : (openBrackets before).head? ≠ some .paren) :
      Malformed line start .unopenedParen offset

/-- The tokens break off only where a literal is spoiled. -/
theorem malformed_number {line : Line} {start first : Nat} (hfirst : TokenAt line start first)
    {offset : Nat} (h : (tokenize first (line.drop first)).2 = .malformed offset) :
    Malformed line start .number offset := by
  -- token by token; the keys that are left are those of the line from the next token on
  generalize hkeys : line.drop first = keys at h
  fun_induction tokenize first keys with
  | case1 first => cases h
  | case2 first key rest index hread =>
      cases h
      obtain ⟨_, hliteral, hspoils⟩ := TokenKind.spoils_of_read hread
      rw [← hkeys] at hliteral hspoils
      exact .number hfirst hliteral hspoils
  | case3 => cases h
  | case4 first key rest kind width hread hend tokens ending htokens ih =>
      simp only [Bool.not_eq_true] at hend
      have hpos := (TokenKind.width_of_read hread).1 hend
      have hnext : TokenAt line start (first + width) := by
        rw [← hkeys] at hread
        exact .next hfirst hread hend
      have hrest : line.drop (first + width) = rest.drop (width - 1) := by
        obtain ⟨n, rfl⟩ : ∃ n, width = n + 1 := ⟨width - 1, by omega⟩
        rw [← List.drop_drop, hkeys]
        rfl
      rw [htokens] at ih
      exact ih hnext hrest h

namespace Machine

variable {setting : Setting} {start machine after : Machine} {tokens : List Token} {token : Token}
  {cause : Malformation} {offset : Nat}

/-- Where a token comes that needs an operand, there is a number to spare, unless the token is the
first and nothing is pending. -/
theorem Takes.supply (h : Takes setting start tokens machine) (hcommands : start.commands = [])
    (hsurplus : start.surplus = 0)
    (hfirst : ∀ first ∈ tokens.head?,
      first.kind.isOperator = false ∧ first.kind.isPostfixFn = false)
    (hfit : token.FitsBehind tokens) (hneeds : token.kind.needsOperand = true) :
    0 < machine.surplus ∨ tokens = [] ∧ machine.commands = [] := by
  cases tokens with
  | nil =>
      rw [h.eq_start]
      exact .inr ⟨rfl, hcommands⟩
  | cons first rest =>
      have hcount := h.surplus_add_needsOperand hsurplus hfit hneeds
      have hhead : first.kind.needsOperand = false := by
        obtain ⟨taken, htake⟩ := h.head first rfl
        obtain ⟨hop, hpost⟩ := hfirst first rfl
        rw [Bool.eq_false_iff]
        intro hneeds
        rcases isOperator_or_isPostfixFn_of_take hcommands htake hneeds with hkind | hkind
        · rw [hop] at hkind
          cases hkind
        · rw [hpost] at hkind
          cases hkind
      rw [hhead, Bool.toNat_false] at hcount
      exact .inl (by omega)

/-- With a number to spare, settling comes to no malformation; nor does it where nothing is
pending. -/
theorem settleUntil_ne_malformed {stays : CommandKind → Bool}
    (hsupply : 0 < machine.surplus ∨ machine.commands = []) :
    settleUntil setting stays machine ≠ .error (.malformed cause offset) after := by
  intro h
  rcases hsupply with hsupply | hcommands
  · have hnone := (gains_settleUntil setting stays machine).of_malformed h
    omega
  · rw [settleUntil_of_commands_nil hcommands] at h
    cases h

/-- A run is malformed like another one that it only adds an answer to. -/
theorem malformed_of_bind_pure {α β : Type} {x : Run α} {b : β}
    (h : (x >>= fun _ => pure b) machine = .error (.malformed cause offset) after) :
    x machine = .error (.malformed cause offset) after := by
  obtain h | ⟨_, _, _, hpure⟩ := bind_eq_error h
  · exact h
  · cases hpure

/-- Where nothing is open, a closing bracket ends the expression. -/
theorem closeBracket_of_commands_nil (h : machine.commands = []) (offset : Nat) :
    closeBracket setting offset machine = .ok false machine := by
  obtain ⟨numbers, commands, events⟩ := machine
  cases h
  rfl

/-- With the operand that it needs, only a closing parenthesis is malformed by itself. -/
theorem malformed_take (h : take setting token machine = .error (.malformed cause offset) after)
    (hsupply : token.kind.needsOperand = true → 0 < machine.surplus ∨
      machine.commands = [] ∧ token.kind.isOperator = false ∧ token.kind.isPostfixFn = false) :
    token = ⟨.closeParen, offset⟩ ∧ cause = .unopenedParen ∧
      (brackets machine.commands).head? ≠ some .paren := by
  obtain ⟨kind, place⟩ := token
  cases kind with
  | closeParen =>
      have hcommands := (hsupply rfl).imp_right And.left
      obtain hsettle | ⟨settled, hsettle, hfault, hnone⟩ :=
        closeParen_eq_error (malformed_of_bind_pure h)
      · exact absurd hsettle (settleUntil_ne_malformed hcommands)
      · cases hfault
        exact ⟨rfl, rfl, head?_brackets_ne_paren hsettle hnone⟩
  | number value =>
      exact absurd (malformed_of_bind_pure h)
          (exchanges_pushNumber value place machine).ne_malformed
  | named name =>
      cases hcell : setting.cell? name 0 with
      | none =>
          rw [take_named_of_none hcell] at h
          cases h
      | some value =>
          rw [take_named_of_some hcell] at h
          exact absurd (malformed_of_bind_pure h)
            (exchanges_pushNumber value place machine).ne_malformed
  | indexed | prefixFn | openParen =>
      exact absurd (malformed_of_bind_pure h) (exchanges_pushCommand _ place machine).ne_malformed
  | operator | postfixFn =>
      have hnone := (gains_take setting (by simp) machine).of_malformed h
      rcases hsupply rfl with hsupply | ⟨_, hop, hpost⟩
      · omega
      · simp [TokenKind.isOperator, TokenKind.isPostfixFn] at hop hpost
  | closeBracket =>
      have hnone := (gains_closeBracket setting place machine).of_malformed h
      rcases hsupply rfl with hsupply | ⟨hcommands, _⟩
      · omega
      · have hend : take setting ⟨.closeBracket, place⟩ machine = .ok false machine :=
          closeBracket_of_commands_nil hcommands place
        rw [hend] at h
        cases h
  | lineEnd | foreign => cases h

/-- A scan that begins with nothing on the stacks is malformed for one of the reasons for which the
expression is. -/
theorem malformed_scan {line : Line} {first : Nat} {ending : Ending}
    (htokenize : tokenize first (line.drop first) = (tokens, ending))
    (hcommands : start.commands = []) (hsurplus : start.surplus = 0)
    (hfirst : ∀ token ∈ tokens.head?,
      token.kind.isOperator = false ∧ token.kind.isPostfixFn = false)
    (h : scan setting none tokens ending start = .error (.malformed cause offset) after) :
    Malformed line first cause offset := by
  obtain ⟨taken, behind, next, rfl, htaken, hhalt, hscan⟩ :=
    scan_halts setting start tokens ending
  have hrow : tokensWithEnd line first = taken ++ (behind ++ ending.token?.toList) := by
    simp only [tokensWithEnd, htokenize, List.append_assoc]
  rcases hhalt.of_error (hscan.symm.trans h) with
    ⟨rfl, place, rfl, hfault⟩ | ⟨token, htoken, last, hlast, hpair, hfault⟩ |
      ⟨token, htoken, hfit, htake⟩
  · cases hfault
    exact malformed_number .start (by rw [htokenize])
  · cases hfault
    obtain ⟨before, rfl⟩ := List.getLast?_eq_some_iff.mp hlast
    obtain ⟨rest, hrest⟩ := List.head?_eq_some_iff.mp htoken
    rw [hrest] at hrow
    exact .neighbours (by simpa using hrow) hpair
  · obtain ⟨rest, rfl⟩ := List.head?_eq_some_iff.mp htoken
    have hsupply : token.kind.needsOperand = true → 0 < next.surplus ∨
        next.commands = [] ∧ token.kind.isOperator = false ∧ token.kind.isPostfixFn = false := by
      intro hneeds
      have hhead := fun first hmem => hfirst first (List.mem_head?_append_of_mem_head? hmem)
      rcases htaken.supply hcommands hsurplus hhead hfit hneeds with hspare | ⟨rfl, hempty⟩
      · exact .inl hspare
      · exact .inr ⟨hempty, hfirst token rfl⟩
    obtain ⟨rfl, rfl, hopen⟩ := malformed_take htake hsupply
    rw [htaken.brackets_eq hcommands] at hopen
    exact .unopenedParen hrow hopen

/-- Behind a number to spare, or with nothing pending, the end of an expression is never
malformed. -/
theorem finish_ne_malformed {stop : Nat} (hsupply : 0 < machine.surplus ∨ machine.commands = []) :
    finish setting stop machine ≠ .error (.malformed cause offset) after := by
  intro h
  obtain hsettle | ⟨_, settled, hsettle, hconclude⟩ := bind_eq_error h
  · exact settleUntil_ne_malformed hsupply hsettle
  · cases hn : settled.numbers with
    | nil =>
        rw [conclude_of_numbers_nil hn] at hconclude
        cases hconclude
    | cons value below =>
        rw [conclude_of_numbers hn] at hconclude
        cases hconclude

/-- Nor is it malformed behind a scan that has come through. -/
theorem finish_ne_malformed_of_scan {ending : Ending} {stop : Nat}
    (hcommands : start.commands = []) (hsurplus : start.surplus = 0)
    (hfirst : ∀ token ∈ tokens.head?,
      token.kind.isOperator = false ∧ token.kind.isPostfixFn = false)
    (h : scan setting none tokens ending start = .ok stop machine) :
    finish setting stop machine ≠ .error (.malformed cause offset) after := by
  obtain ⟨taken, behind, next, rfl, htaken, hhalt, hscan⟩ :=
    scan_halts setting start tokens ending
  obtain ⟨token, _, hfit, htake, _⟩ := hhalt.of_ok (hscan.symm.trans h)
  obtain ⟨hneeds, hsettle⟩ := take_eq_ok_false htake
  have hfinish : finish setting stop machine = finish setting stop next :=
    bind_congr_left hsettle _
  have hhead := fun first hmem => hfirst first (List.mem_head?_append_of_mem_head? hmem)
  have hsupply := htaken.supply hcommands hsurplus hhead hfit hneeds
  rw [hfinish]
  exact finish_ne_malformed (hsupply.imp_right And.right)

end Machine

namespace Setting

/-- An expression that does not begin with an operator or a function written after its operand never
misses an operand; where it is malformed, its tokens show why. -/
theorem solve_malformed (setting : Setting) (line : Line) (start : Nat)
    (hfirst : ∀ token ∈ (tokenize start (line.drop start)).1.head?,
      token.kind.isOperator = false ∧ token.kind.isPostfixFn = false) :
    (∀ offset, (setting.solve line start).result ≠ .error (.malformed .missingOperand offset)) ∧
      ∀ cause offset, (setting.solve line start).result = .error (.malformed cause offset) →
        Malformed line start cause offset := by
  have hreason : ∀ cause offset,
      (setting.solve line start).result = .error (.malformed cause offset) →
        Malformed line start cause offset := by
    intro cause offset h
    obtain ⟨after, hrun⟩ := run_of_result_error h
    rw [Machine.solve_eq_finish] at hrun
    let started : Machine := { events := [.started start (line.drop start)] }
    have hscan : (Machine.scan setting none (tokenize start (line.drop start)).1
        (tokenize start (line.drop start)).2 >>= Machine.finish setting) started =
          .error (.malformed cause offset) after := hrun
    obtain hscan | ⟨stop, scanned, hscan, hfinish⟩ := Machine.bind_eq_error hscan
    · exact Machine.malformed_scan rfl rfl rfl hfirst hscan
    · exact absurd hfinish (Machine.finish_ne_malformed_of_scan rfl rfl hfirst hscan)
  refine ⟨?_, hreason⟩
  intro offset h
  cases hreason .missingOperand offset h

/-- `(A[1)]` misses no operand: its parenthesis closes none, since an index is open inside. -/
theorem solve_malformed_in_index :
    (∀ offset, (Setting.solve ⟨fun _ _ => none, .degrees⟩
        [.openParen, .letter 'A', .openBracket, .digit 1, .closeParen, .closeBracket] 0).result ≠
          .error (.malformed .missingOperand offset)) ∧
      Malformed [.openParen, .letter 'A', .openBracket, .digit 1, .closeParen, .closeBracket] 0
        .unopenedParen 4 := by
  have hmalformed := solve_malformed ⟨fun _ _ => none, .degrees⟩
    [.openParen, .letter 'A', .openBracket, .digit 1, .closeParen, .closeBracket] 0
    (by decide +kernel)
  exact ⟨hmalformed.1, hmalformed.2 _ _ (by decide +kernel)⟩

end Setting
end PocketCalc
