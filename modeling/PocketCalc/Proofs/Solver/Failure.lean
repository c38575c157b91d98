import PocketCalc.Proofs.Solver.Blame
import PocketCalc.Proofs.Solver.Indices
import PocketCalc.Proofs.Solver.Outcome

/-! How solving fails. Some tokens are taken, and then the next one or the end is at fault. Where it
is a cell that is missing, its index or its variable can be told from the line. -/

namespace PocketCalc

/-- What is wrong with an operation is wrong at its key. -/
theorem OperationFault.offset_eq {place : Nat} {fault : Fault} (h : OperationFault place fault) :
    fault.offset? = some place := by
  cases h with
  | _ => rfl

theorem not_operationFault_noSuchCell (place offset : Nat) :
    ¬ OperationFault place (.noSuchCell offset) := by
  intro h
  cases h

theorem CommandFault.offset_eq {command : Command} {fault : Fault}
    (h : CommandFault command fault) :
    fault.offset? = some command.offset := by
  unfold CommandFault at h
  split at h
  · cases h with
    | operation hoperation => exact hoperation.offset_eq
    | noSuchCell => rfl
  · exact h.offset_eq

theorem CommandFault.index?_eq {command : Command} {offset : Nat}
    (h : CommandFault command (.noSuchCell offset)) : command.index? = some offset := by
  unfold CommandFault at h
  unfold Command.index?
  split at h
  · next hindex =>
      rw [if_pos hindex]
      cases h with
      | operation hoperation => exact absurd hoperation (not_operationFault_noSuchCell _ _)
      | noSuchCell => rfl
  · exact absurd h (not_operationFault_noSuchCell _ _)

namespace Machine

variable {setting : Setting} {machine after : Machine} {token : Token} {offset start : Nat}
  {keys : Line} {fault : Fault}

/-- A fault is found behind the tokens that have been taken: a number is none there, the next token
does not fit or cannot be taken, or what is pending at the end cannot be settled. -/
theorem solve_eq_error (h : solve setting start keys {} = .error fault after) :
    ∃ taken behind next, (tokenize start keys).1 = taken ++ behind ∧
      Takes setting (started start keys) taken next ∧
      ((∃ place, (tokenize start keys).2 = .malformed place ∧ fault = .malformed .number place) ∨
        (∃ place, fault = .malformed .neighbours place) ∨
        (∃ token ∈ behind.head?, TokenFault setting next.commands token fault) ∨
        ∃ token ∈ (behind ++ (tokenize start keys).2.token?.toList).head?,
          (∃ halted, take setting token next = .ok false halted) ∧
          ((∃ command ∈ next.commands, CommandFault command fault) ∨
            fault = .nothingToSolve token.offset)) := by
  have hrun : (scan setting none (tokenize start keys).1 (tokenize start keys).2 >>=
      finish setting) (started start keys) = .error fault after := h
  obtain ⟨taken, behind, next, htokens, htaken, hhalt, hsame⟩ :=
    scan_halts setting (started start keys) (tokenize start keys).1 (tokenize start keys).2
  refine ⟨taken, behind, next, htokens, htaken, ?_⟩
  obtain hscan | ⟨stop, scanned, hscan, hfinish⟩ := bind_eq_error hrun
  · obtain ⟨_, place, hending, hfault⟩ | ⟨last, _, _, _, _, hfault⟩ | ⟨last, hlast, _, htake⟩ :=
      hhalt.of_error (hsame.symm.trans hscan)
    · exact .inl ⟨place, hending, hfault⟩
    · exact .inr (.inl ⟨last.offset, hfault⟩)
    · exact .inr (.inr (.inl ⟨last, hlast, take_eq_error htake⟩))
  · obtain ⟨last, hlast, _, htake, rfl⟩ := hhalt.of_ok (hsame.symm.trans hscan)
    have hlater : finish setting last.offset scanned = finish setting last.offset next :=
      bind_congr_left (take_eq_ok_false htake).2 _
    rw [hlater] at hfinish
    exact .inr (.inr (.inr ⟨last, hlast, ⟨scanned, htake⟩, finish_eq_error hfinish⟩))

/-- A bracket that closes no index finds none open. -/
theorem indices_of_closeBracket (h : closeBracket setting offset machine = .ok false after) :
    indices machine.commands = [] := by
  obtain ⟨htrue, _⟩ | ⟨_, hsettle, hnone⟩ := closeBracket_eq_ok h
  · cases htrue
  · rw [← indices_dropWhile (fun _ => id) machine.commands, ← commands_of_settleUntil hsettle]
    cases hcommands : after.commands with
    | nil => rfl
    | cons command below =>
        have hindex := stays_of_settleUntil hsettle command (by rw [hcommands]; rfl)
        rw [hnone command (by rw [hcommands]; rfl)] at hindex
        cases hindex

variable {next : Machine} {taken : List Token}

/-- Where a token finds no cell, it is a variable on its own or the bracket of an index. -/
theorem closesIndex_of_tokenFault {rest : List Token}
    (htokens : (tokenize start (keys.drop start)).1 = taken ++ token :: rest)
    (htaken : Takes setting (started start (keys.drop start)) taken next)
    (h : TokenFault setting next.commands token (.noSuchCell offset)) :
    (∃ name, keys[offset]? = some (.letter name) ∧ setting.cell? name 0 = none) ∨
      ClosesIndex keys start offset := by
  obtain ⟨kind, place⟩ := token
  cases h with
  | settling _ _ hoperation => exact absurd hoperation (not_operationFault_noSuchCell _ _)
  | operation hoperation => exact absurd hoperation (not_operationFault_noSuchCell _ _)
  | @named name hkind hcell =>
      cases hkind
      have hmem : ⟨.named name, place⟩ ∈ (tokenize start (keys.drop start)).1 := by
        rw [htokens]
        simp
      exact .inl ⟨name, getElem?_of_mem_tokenize hmem 0 rfl, hcell⟩
  | closing hkind hmem hindex =>
      cases hkind
      obtain ⟨opener, opened, hopened⟩ :=
        List.exists_cons_of_ne_nil (List.ne_nil_of_mem (mem_indices hmem hindex))
      exact .inr ⟨taken, rest, opener, opened, htokens,
        (htaken.openIndices_eq rfl).trans (congrArg some hopened)⟩

/-- With an index open, an expression ends neither at a bracket nor at any other token of its row:
it comes to the end of the row. -/
theorem leavesIndexOpen_of_take {behind : List Token}
    (htokens : (tokenize start (keys.drop start)).1 = taken ++ behind)
    (htaken : Takes setting (started start (keys.drop start)) taken next)
    (hhead : token ∈ (behind ++ (tokenize start (keys.drop start)).2.token?.toList).head?)
    (htake : take setting token next = .ok false after) (hopen : offset ∈ indices next.commands) :
    LeavesIndexOpen keys start offset := by
  cases behind with
  | nil =>
      rw [List.append_nil] at htokens
      cases hending : (tokenize start (keys.drop start)).2 with
      | malformed place =>
          rw [hending] at hhead
          cases hhead
      | stop place =>
          exact ⟨taken, place, indices next.commands, Prod.ext htokens hending,
            htaken.openIndices_eq rfl, hopen⟩
  | cons first rest =>
      cases hhead
      have hmem : token ∈ (tokenize start (keys.drop start)).1 := by
        rw [htokens]
        simp
      have hend := (read_of_mem_tokenize hmem).1
      obtain ⟨kind, place⟩ := token
      obtain rfl | hkind := eq_closeBracket_or_isEnd_of_take htake
      · rw [indices_of_closeBracket htake] at hopen
        cases hopen
      · rw [hend] at hkind
        cases hkind

end Machine

namespace Setting

variable {setting : Setting} {keys : Line} {start offset : Nat}

/-- A fault has a place in the line. -/
theorem offset_of_result_error {fault : Fault}
    (h : (setting.solve keys start).result = .error fault) :
    ∃ place, fault.offset? = some place := by
  obtain ⟨after, hrun⟩ := run_of_result_error h
  obtain ⟨_, _, next, _, _, ⟨place, _, rfl⟩ | ⟨place, rfl⟩ | ⟨token, _, hfault⟩ |
    ⟨token, _, _, ⟨command, _, hfault⟩ | rfl⟩⟩ := Machine.solve_eq_error hrun
  · exact ⟨place, rfl⟩
  · exact ⟨place, rfl⟩
  · cases hfault with
    | settling _ _ hoperation => exact ⟨_, hoperation.offset_eq⟩
    | operation hoperation => exact ⟨_, hoperation.offset_eq⟩
    | unopened | named | closing => exact ⟨_, rfl⟩
  · exact ⟨_, hfault.offset_eq⟩
  · exact ⟨_, rfl⟩

/-- A cell is missing only for a variable on its own, at the bracket that closes an index, or for an
index that is left open. -/
theorem result_eq_noSuchCell
    (h : (setting.solve keys start).result = .error (.noSuchCell offset)) :
    (∃ name, keys[offset]? = some (.letter name) ∧ setting.cell? name 0 = none) ∨
      ClosesIndex keys start offset ∨ LeavesIndexOpen keys start offset := by
  obtain ⟨after, hrun⟩ := run_of_result_error h
  obtain ⟨taken, behind, next, htokens, htaken, ⟨_, _, hfault⟩ | ⟨_, hfault⟩ |
    ⟨token, hhead, hfault⟩ | ⟨token, hhead, ⟨halted, htake⟩, ⟨command, hmem, hfault⟩ | hfault⟩⟩ :=
    Machine.solve_eq_error hrun
  · cases hfault
  · cases hfault
  · obtain ⟨rest, rfl⟩ := List.head?_eq_some_iff.mp hhead
    obtain hnamed | hcloses := Machine.closesIndex_of_tokenFault htokens htaken hfault
    · exact .inl hnamed
    · exact .inr (.inl hcloses)
  · have hopen : offset ∈ Machine.indices next.commands :=
      List.mem_filterMap.mpr ⟨command, hmem, hfault.index?_eq⟩
    exact .inr (.inr (Machine.leavesIndexOpen_of_take htokens htaken hhead htake hopen))
  · cases hfault

end Setting
end PocketCalc
