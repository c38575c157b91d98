import PocketCalc.Proofs.Solver.Progress
import PocketCalc.Proofs.Token.Places

/-! The indices that are open, each with the offset of its variable. They can be told from the
tokens alone, and the stack of commands holds the same ones. -/

namespace PocketCalc

/-- The offsets of the variables whose index is open behind a token, the innermost first. There are
none where a bracket closes no index, since the expression ends before it. -/
def TokenKind.indicesAfter (offset : Nat) (opened : List Nat) : TokenKind → Option (List Nat)
  | indexed _ => some (offset :: opened)
  | closeBracket => opened.tail?
  | _ => some opened

/-- The offsets of the variables whose index the tokens leave open, the innermost first. -/
def openIndices (tokens : List Token) : Option (List Nat) :=
  tokens.foldlM (fun opened token => token.kind.indicesAfter token.offset opened) []

@[simp] theorem openIndices_nil : openIndices [] = some [] := rfl

theorem openIndices_concat (tokens : List Token) (token : Token) :
    openIndices (tokens ++ [token]) =
      (openIndices tokens).bind (token.kind.indicesAfter token.offset) := by
  simp [openIndices, List.foldlM_append]

/-- The key at the offset is a bracket that closes the index of a variable in the expression that
begins at `start`. -/
def ClosesIndex (keys : Line) (start offset : Nat) : Prop :=
  ∃ before behind opener opened,
    (tokenize start (keys.drop start)).1 = before ++ ⟨.closeBracket, offset⟩ :: behind ∧
      openIndices before = some (opener :: opened)

/-- The key at the offset is a variable whose index is still open at the end of the expression that
begins at `start`. -/
def LeavesIndexOpen (keys : Line) (start offset : Nat) : Prop :=
  ∃ tokens stop opened, tokenize start (keys.drop start) = (tokens, .stop stop) ∧
    openIndices tokens = some opened ∧ offset ∈ opened

/-- The offsets of open indices are those of variables with an opening bracket. -/
theorem mem_of_mem_openIndices {tokens : List Token} {opened : List Nat} {offset : Nat}
    (h : openIndices tokens = some opened) (hmem : offset ∈ opened) :
    ∃ name, ⟨.indexed name, offset⟩ ∈ tokens := by
  induction tokens using List.reverseRecOn generalizing opened with
  | nil =>
      cases h
      cases hmem
  | append_singleton tokens token ih =>
      rw [openIndices_concat, Option.bind_eq_some_iff] at h
      obtain ⟨before, hbefore, hafter⟩ := h
      have hearlier (hoffset : offset ∈ before) :
          ∃ name, ⟨.indexed name, offset⟩ ∈ tokens ++ [token] := by
        obtain ⟨name, hname⟩ := ih hbefore hoffset
        exact ⟨name, List.mem_append_left _ hname⟩
      obtain ⟨kind, place⟩ := token
      cases kind with
      | indexed name =>
          cases hafter
          rcases List.mem_cons.mp hmem with rfl | hmem
          · exact ⟨name, by simp⟩
          · exact hearlier hmem
      | closeBracket =>
          cases before with
          | nil => cases hafter
          | cons closed before =>
              cases hafter
              exact hearlier (List.mem_cons_of_mem closed hmem)
      | _ =>
          cases hafter
          exact hearlier hmem

/-- What closes an index is a closing bracket. -/
theorem ClosesIndex.key_eq {keys : Line} {start offset : Nat} (h : ClosesIndex keys start offset) :
    keys[offset]? = some .closeBracket := by
  obtain ⟨before, behind, _, _, htokens, _⟩ := h
  have hmem : ⟨.closeBracket, offset⟩ ∈ (tokenize start (keys.drop start)).1 := by
    rw [htokens]
    simp
  exact getElem?_of_mem_tokenize hmem 0 rfl

/-- An index is left open behind a letter with an opening bracket. -/
theorem LeavesIndexOpen.keys_eq {keys : Line} {start offset : Nat}
    (h : LeavesIndexOpen keys start offset) :
    ∃ name, keys[offset]? = some (.letter name) ∧ keys[offset + 1]? = some .openBracket := by
  obtain ⟨tokens, stop, opened, htokens, hopened, hmem⟩ := h
  obtain ⟨name, hname⟩ := mem_of_mem_openIndices hopened hmem
  have hmem : ⟨.indexed name, offset⟩ ∈ (tokenize start (keys.drop start)).1 := by
    rwa [htokens]
  exact ⟨name, getElem?_of_mem_tokenize hmem 0 rfl, getElem?_of_mem_tokenize hmem 1 rfl⟩

/-- The offset of a variable whose index is open. -/
def Command.index? (command : Command) : Option Nat :=
  if command.kind.isIndex then some command.offset else none

namespace Machine

variable {setting : Setting} {stays : CommandKind → Bool} {start machine after : Machine}
  {tokens : List Token} {token : Token} {offset : Nat}

/-- The offsets of the open indices among the commands, the innermost first. -/
def indices (commands : List Command) : List Nat := commands.filterMap Command.index?

@[simp] theorem indices_cons_index (name : Char) (offset : Nat) (below : List Command) :
    indices (⟨.index name, offset⟩ :: below) = offset :: indices below := rfl

theorem mem_indices {command : Command} {commands : List Command} (hmem : command ∈ commands)
    (hindex : command.kind.isIndex = true) : command.offset ∈ indices commands :=
  List.mem_filterMap.mpr ⟨command, hmem, if_pos hindex⟩

/-- No index is among the commands above the first one that is to stay, if indices are. -/
theorem indices_dropWhile
    (hstays : ∀ kind : CommandKind, kind.isIndex = true → stays kind = true)
    (commands : List Command) :
    indices (commands.dropWhile fun command => !stays command.kind) = indices commands := by
  refine filterMap_dropWhile (fun command hs => if_neg fun hindex => ?_) commands
  rw [hstays _ hindex] at hs
  cases hs

/-- A token does to the open indices on the stack what it does to those before it. -/
theorem indices_of_take (h : take setting token machine = .ok true after) :
    token.kind.indicesAfter token.offset (indices machine.commands) =
      some (indices after.commands) := by
  obtain ⟨kind, offset⟩ := token
  have hcommands := commands_of_take h
  cases kind with
  | operator op =>
      rw [hcommands]
      exact congrArg some (indices_dropWhile
        (fun _ hindex => CommandKind.bindsLessThan_of_isIndex hindex op.precedence)
        machine.commands).symm
  | postfixFn f =>
      rw [hcommands]
      exact congrArg some (indices_dropWhile
        (fun _ hindex => CommandKind.bindsLessThan_of_isIndex hindex f.precedence)
        machine.commands).symm
  | closeParen =>
      obtain ⟨_, closed, hclose, ⟨⟩⟩ := bind_eq_ok h
      obtain ⟨settled, opener, below, hsettle, hparen, rfl⟩ := closeParen_eq_ok hclose
      have hkept := indices_dropWhile (fun _ => CommandKind.isOpener_of_isIndex) machine.commands
      rw [← commands_of_settleUntil hsettle, hparen] at hkept
      exact congrArg some hkept.symm
  | closeBracket =>
      obtain ⟨name, opener, hbelow⟩ := commands_of_closeBracket h
      have hkept := indices_dropWhile (fun _ => id) machine.commands
      rw [hbelow, indices_cons_index] at hkept
      rw [← hkept]
      rfl
  | lineEnd | foreign => cases h
  | _ =>
      rw [hcommands]
      rfl

/-- The indices that are open on the stack are those that the tokens leave open. -/
theorem Takes.openIndices_eq (h : Takes setting start tokens machine)
    (hstart : start.commands = []) : openIndices tokens = some (indices machine.commands) := by
  induction h with
  | nil => rw [hstart]; rfl
  | snoc _ _ htake ih => rw [openIndices_concat, ih, Option.bind_some, indices_of_take htake]

end Machine
end PocketCalc
