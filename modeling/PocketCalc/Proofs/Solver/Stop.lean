import PocketCalc.Proofs.Solver.Failure
import PocketCalc.Proofs.Token.Rows

/-! Where an expression is over. That can be told from the keys alone: only the bracket of an index
is looked for, and whatever else may stand in an expression is passed over one key at a time. An
expression that has a value, or that is empty, ends where that search does. -/

namespace PocketCalc

/-- Where the expression is over that goes on at an offset, with so many indices open there. -/
def expressionEnd (offset depth : Nat) : List Key → Nat
  | [] => offset
  | .letter _ :: .openBracket :: rest => expressionEnd (offset + 2) (depth + 1) rest
  | .closeBracket :: rest =>
    match depth with
    | 0 => offset
    | depth + 1 => expressionEnd (offset + 1) depth rest
  | .openBracket :: _ | .separator _ :: _ => offset
  | _ :: rest => expressionEnd (offset + 1) depth rest

theorem expressionEnd_inRow (start depth : Nat) (keys : List Key) :
    InRow start keys (expressionEnd start depth keys) := by
  simp only [InRow]
  fun_induction expressionEnd start depth keys with
  | case1 | case3 | case5 | case6 => simp
  | _ =>
      simp only [List.length_cons]
      omega

/-- No separator is passed over. -/
theorem count_drop_expressionEnd (s : Separator) (start depth : Nat) (keys : List Key) :
    (keys.drop (expressionEnd start depth keys - start)).count (.separator s) =
      keys.count (.separator s) := by
  have hpass (start depth width : Nat) (rest : List Key) :
      expressionEnd (start + width) depth rest - start =
        expressionEnd (start + width) depth rest - (start + width) + width := by
    have hrow := expressionEnd_inRow (start + width) depth rest
    simp only [InRow] at hrow
    omega
  fun_induction expressionEnd start depth keys with
  | case1 | case3 | case5 | case6 => rw [Nat.sub_self, List.drop_zero]
  | case2 start depth name rest ih =>
      rw [hpass, List.drop_succ_cons, List.drop_succ_cons, ih]
      rfl
  | case4 start rest depth ih =>
      rw [hpass, List.drop_succ_cons, ih]
      rfl
  | case7 start depth key rest _ _ _ hseparator ih =>
      rw [hpass, List.drop_succ_cons, ih, List.count_cons_of_ne]
      exact fun heq => hseparator s heq

/-- The keys of a literal are passed over. -/
theorem expressionEnd_of_extend {literal result : Literal} {keys : List Key}
    (h : literal.extend keys = .ok result) (offset depth : Nat) :
    expressionEnd (offset + literal.width) depth keys =
      expressionEnd (offset + result.width) depth (keys.drop (result.width - literal.width)) := by
  fun_induction Literal.extend literal keys with
  | case1 literal n rest _ ih =>
      have hwidth := (Literal.width_of_extend h).1
      simp only [Literal.appendDigit] at ih hwidth
      rw [List.drop_cons (by omega), Nat.sub_sub, ← ih h]
      rfl
  | case2 => cases h
  | case3 => cases h
  | case4 literal rest _ ih =>
      have hwidth := (Literal.width_of_extend h).1
      simp only [Literal.appendDot] at ih hwidth
      rw [List.drop_cons (by omega), Nat.sub_sub, ← ih h]
      rfl
  | case5 =>
      cases h
      rw [Nat.sub_self, List.drop_zero]

theorem expressionEnd_of_literal {literal : Literal} {keys : List Key}
    (h : Literal.read keys = .ok literal) (offset depth : Nat) :
    expressionEnd offset depth keys =
      expressionEnd (offset + literal.width) depth (keys.drop literal.width) := by
  unfold Literal.read at h
  split at h
  · next found hfound =>
      split at h <;> cases h
      exact expressionEnd_of_extend hfound offset depth
  · cases h

/-- A token is passed over, and opens or closes an index on the way. -/
theorem expressionEnd_of_read {keys : List Key} {kind : TokenKind} {width offset : Nat}
    {opened behind : List Nat} (hread : TokenKind.read keys = .ok (kind, width))
    (hend : kind.isEnd = false) (hopened : kind.indicesAfter offset opened = some behind) :
    expressionEnd offset opened.length keys =
      expressionEnd (offset + width) behind.length (keys.drop width) := by
  unfold TokenKind.read at hread
  split at hread
  case h_12 n rest | h_13 rest =>
    obtain ⟨literal, hliteral, rfl, rfl⟩ := TokenKind.literal_of_read hread
    cases hopened
    exact expressionEnd_of_literal hliteral offset _
  case h_4 =>
    cases hread
    cases opened with
    | nil => cases hopened
    | cons closed opened =>
        cases hopened
        rfl
  case h_9 name rest hbracket =>
    cases hread
    cases hopened
    cases rest with
    | nil => rfl
    | cons next rest =>
        cases next with
        | openBracket => exact (hbracket rest rfl).elim
        | _ => rfl
  case h_1 | h_10 | h_11 =>
    cases hread
    cases hend
  all_goals
    cases hread
    cases hopened
    rfl

theorem expressionEnd_of_isEnd {keys : List Key} {kind : TokenKind} {width : Nat}
    (hread : TokenKind.read keys = .ok (kind, width)) (hend : kind.isEnd = true)
    (offset depth : Nat) : expressionEnd offset depth keys = offset := by
  unfold TokenKind.read at hread
  split at hread
  case h_12 n rest | h_13 rest =>
    obtain ⟨literal, _, rfl, rfl⟩ := TokenKind.literal_of_read hread
    cases hend
  case h_1 | h_10 | h_11 => rfl
  all_goals
    cases hread
    cases hend

/-- The search comes through the tokens that are taken. It stops at the end of their row, and at a
bracket that finds no index open. -/
theorem expressionEnd_of_tokenize {start : Nat} {keys : List Key} {taken behind : List Token}
    {token : Token} {opened left : List Nat} (htokens : (tokenize start keys).1 = taken ++ behind)
    (hopened : taken.foldlM (fun opened token => token.kind.indicesAfter token.offset opened)
      opened = some left)
    (htoken : token ∈ (behind ++ (tokenize start keys).2.token?.toList).head?)
    (hstop : token.kind.isEnd = true ∨ token.kind = .closeBracket ∧ left = []) :
    expressionEnd start opened.length keys = token.offset := by
  fun_induction tokenize start keys generalizing taken opened with
  | case1 start =>
      obtain ⟨rfl, rfl⟩ := List.append_eq_nil_iff.mp htokens.symm
      cases htoken
      rfl
  | case2 =>
      obtain ⟨rfl, rfl⟩ := List.append_eq_nil_iff.mp htokens.symm
      cases htoken
  | case3 start key rest kind width hread hend =>
      obtain ⟨rfl, rfl⟩ := List.append_eq_nil_iff.mp htokens.symm
      cases htoken
      exact expressionEnd_of_isEnd hread hend start _
  | case4 start key rest kind width hread hend tokens ending heq ih =>
      simp only [Bool.not_eq_true] at hend
      cases taken with
      | nil =>
          obtain rfl : _ = behind := htokens
          cases htoken
          cases hopened
          obtain hkind | ⟨rfl, rfl⟩ := hstop
          · rw [hend] at hkind
            cases hkind
          · obtain ⟨more, hmore⟩ := TokenKind.ownKeys_of_read hread
            rw [← hmore]
            rfl
      | cons first taken =>
          obtain ⟨rfl, rfl⟩ := List.cons.inj htokens
          rw [List.foldlM_cons, Option.bind_eq_bind, Option.bind_eq_some_iff] at hopened
          obtain ⟨between, hfirst, hopened⟩ := hopened
          have hpos := (TokenKind.width_of_read hread).1 hend
          rw [expressionEnd_of_read hread hend hfirst, List.drop_cons hpos]
          rw [heq] at ih
          exact ih rfl hopened htoken

namespace Machine

variable {setting : Setting} {machine after : Machine} {start stop : Nat} {keys : List Key}

/-- A scan that succeeds ends where the expression is over. -/
theorem scan_eq_ok_expressionEnd
    (h : scan setting none (tokenize start keys).1 (tokenize start keys).2 (started start keys) =
      .ok stop after) : stop = expressionEnd start 0 keys := by
  obtain ⟨taken, behind, next, token, htokens, htaken, htoken, _, htake, rfl⟩ := scan_eq_ok h
  refine (expressionEnd_of_tokenize htokens (htaken.openIndices_eq rfl) htoken ?_).symm
  obtain hkind | hend := eq_closeBracket_or_isEnd_of_take htake
  · obtain ⟨kind, offset⟩ := token
    cases hkind
    exact .inr ⟨rfl, indices_of_closeBracket htake⟩
  · exact .inl hend

theorem not_commandFault_nothingToSolve (command : Command) (stop : Nat) :
    ¬ CommandFault command (.nothingToSolve stop) := by
  intro h
  unfold CommandFault at h
  split at h
  · cases h with
    | operation hoperation => cases hoperation
  · cases h

/-- Scanning never comes to find nothing to solve. -/
theorem scan_ne_nothingToSolve {tokens : List Token} {ending : Ending} :
    scan setting none tokens ending machine ≠ .error (.nothingToSolve stop) after := by
  intro h
  obtain ⟨taken, behind, next, _, _, hhalt, hsame⟩ := scan_halts setting machine tokens ending
  obtain ⟨_, _, _, hfault⟩ | ⟨_, _, _, _, _, hfault⟩ | ⟨token, _, _, htake⟩ :=
    hhalt.of_error (hsame.symm.trans h)
  · cases hfault
  · cases hfault
  · cases take_eq_error htake with
    | settling _ _ hoperation => cases hoperation
    | operation hoperation => cases hoperation

/-- There is nothing to solve if no number is left when everything is settled at the end. -/
theorem solve_eq_nothingToSolve_iff :
    solve setting start keys {} = .error (.nothingToSolve stop) after ↔
      ∃ scanned, scan setting none (tokenize start keys).1 (tokenize start keys).2
          (started start keys) = .ok stop scanned ∧
        settleUntil setting (fun _ => false) scanned = .ok () after ∧ after.numbers = [] := by
  change (scan setting none (tokenize start keys).1 (tokenize start keys).2 >>= finish setting)
    (started start keys) = _ ↔ _
  constructor
  · intro h
    obtain hscan | ⟨last, scanned, hscan, hfinish⟩ := bind_eq_error h
    · exact absurd hscan scan_ne_nothingToSolve
    · obtain hsettle | ⟨_, settled, hsettle, hconclude⟩ := bind_eq_error hfinish
      · obtain ⟨command, _, _, hfault⟩ := settleUntil_eq_error hsettle
        exact absurd hfault (not_commandFault_nothingToSolve command stop)
      · cases hnumbers : settled.numbers with
        | nil =>
            rw [conclude_of_numbers_nil hnumbers] at hconclude
            cases hconclude
            exact ⟨scanned, hscan, hsettle, hnumbers⟩
        | cons value below =>
            rw [conclude_of_numbers hnumbers] at hconclude
            cases hconclude
  · rintro ⟨scanned, hscan, hsettle, hnumbers⟩
    rw [bind_of_ok hscan, finish, bind_of_ok hsettle, conclude_of_numbers_nil hnumbers]

/-- A run that finds a value has scanned to the end that it tells. -/
theorem scan_of_solve_eq_ok {value : Float}
    (h : solve setting start keys {} = .ok (value, stop) after) :
    ∃ scanned, scan setting none (tokenize start keys).1 (tokenize start keys).2
      (started start keys) = .ok stop scanned := by
  have hrun : (scan setting none (tokenize start keys).1 (tokenize start keys).2 >>=
      finish setting) (started start keys) = .ok (value, stop) after := h
  obtain ⟨last, scanned, hscan, hfinish⟩ := bind_eq_ok hrun
  obtain ⟨rfl, _⟩ := finish_eq_ok hfinish
  exact ⟨scanned, hscan⟩

end Machine

namespace Setting

/-- The cursor comes to where the expression is over, if the expression has a value or is empty, and
stays at the start of an expression with any other fault. So it is always a place in the line, or
where it was. -/
theorem solve_cursor (setting : Setting) (line : Line) (start : Nat) :
    (setting.solve line start).cursor =
        (match (setting.solve line start).result with
        | .ok _ | .error (.nothingToSolve _) => expressionEnd start 0 (line.drop start)
        | .error _ => start) ∧
      start ≤ (setting.solve line start).cursor ∧
      (setting.solve line start).cursor ≤ max start line.length := by
  have hplace : start ≤ expressionEnd start 0 (line.drop start) ∧
      expressionEnd start 0 (line.drop start) ≤ max start line.length := by
    have hrow := expressionEnd_inRow start 0 (line.drop start)
    simp only [InRow, List.length_drop] at hrow
    omega
  cases hrun : Machine.solve setting start (line.drop start) {} with
  | ok found after =>
      obtain ⟨value, stop⟩ := found
      obtain ⟨scanned, hscan⟩ := Machine.scan_of_solve_eq_ok hrun
      rw [← Machine.scan_eq_ok_expressionEnd hscan] at hplace ⊢
      rw [solve_of_ok hrun]
      exact ⟨rfl, hplace⟩
  | error fault after =>
      rw [result_of_error hrun]
      by_cases hempty : ∃ stop, fault = .nothingToSolve stop
      · obtain ⟨stop, rfl⟩ := hempty
        obtain ⟨scanned, hscan, _⟩ := Machine.solve_eq_nothingToSolve_iff.mp hrun
        have hcursor : (setting.solve line start).cursor = stop := by simp only [solve, hrun]
        rw [← Machine.scan_eq_ok_expressionEnd hscan] at hplace ⊢
        rw [hcursor]
        exact ⟨rfl, hplace⟩
      · have hcursor := cursor_of_error (fun stop heq => hempty ⟨stop, heq⟩) hrun
        rw [hcursor]
        refine ⟨?_, Nat.le_refl _, Nat.le_max_left _ _⟩
        cases fault with
        | nothingToSolve stop => exact (hempty ⟨stop, rfl⟩).elim
        | _ => rfl

/-- The first bracket of `A[(1]+2]` closes the index, and the second one ends the expression. -/
example : expressionEnd 0 0 [.letter 'A', .openBracket, .openParen, .digit 1, .closeBracket,
    .operator .add, .digit 2, .closeBracket] = 7 := rfl

end Setting
end PocketCalc
