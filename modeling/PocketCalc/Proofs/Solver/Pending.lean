import PocketCalc.Proofs.Solver.Settling

/-! The stack of commands follows from the tokens that have been taken. What a token does to it does
not depend on the numbers, as long as the token is taken at all. -/

namespace PocketCalc

/-- The commands that are pending behind a token at an offset. -/
def TokenKind.commandsAfter (offset : Nat) (commands : List Command) : TokenKind → List Command
  | indexed name => ⟨.index name, offset⟩ :: commands
  | prefixFn f => ⟨.prefixFn f, offset⟩ :: commands
  | openParen => ⟨.paren, offset⟩ :: commands
  | operator op =>
    ⟨.operator op, offset⟩ ::
      commands.dropWhile fun command => !command.kind.bindsLessThan op.precedence
  | postfixFn f => commands.dropWhile fun command => !command.kind.bindsLessThan f.precedence
  | closeParen => (commands.dropWhile fun command => !command.kind.isOpener).tail
  | closeBracket => (commands.dropWhile fun command => !command.kind.isIndex).tail
  | number _ | named _ | lineEnd | foreign => commands

namespace CommandKind

theorem isOpener_of_isIndex {kind : CommandKind} (h : kind.isIndex = true) :
    kind.isOpener = true := by
  cases kind with
  | index name => rfl
  | _ => cases h

theorem bindsLessThan_of_isIndex {kind : CommandKind} (h : kind.isIndex = true)
    (precedence : Nat) : kind.bindsLessThan precedence = true := by
  cases kind with
  | index => rfl
  | _ => cases h

end CommandKind

namespace Machine

variable {setting : Setting} {stays : CommandKind → Bool} {machine after : Machine}

/-- What is read off the commands is not lost when some are settled off which nothing is read. -/
theorem filterMap_dropWhile {α : Type} {part? : Command → Option α}
    (h : ∀ command : Command, stays command.kind = false → part? command = none)
    (commands : List Command) :
    (commands.dropWhile fun command => !stays command.kind).filterMap part? =
      commands.filterMap part? := by
  induction commands with
  | nil => rfl
  | cons command below ih =>
      by_cases hs : stays command.kind = true
      · rw [List.dropWhile_cons_of_neg (by simp [hs])]
      · rw [List.dropWhile_cons_of_pos (by simp [hs]), ih,
          List.filterMap_cons_none (h command (by simpa using hs))]

/-- A closing bracket that is taken closes the innermost index. -/
theorem commands_of_closeBracket {offset : Nat}
    (h : closeBracket setting offset machine = .ok true after) :
    ∃ name opener, (machine.commands.dropWhile fun command => !command.kind.isIndex) =
      ⟨.index name, opener⟩ :: after.commands := by
  obtain ⟨_, settled, name, opener, below, hsettle, hcommands, hfetch⟩ | ⟨hfalse, _⟩ :=
    closeBracket_eq_ok h
  · rw [← commands_of_settleUntil hsettle, hcommands]
    exact ⟨name, opener, by rw [keepsCommands_fetch setting name offset _ _ _ hfetch]⟩
  · cases hfalse

theorem commands_of_take {token : Token} (h : take setting token machine = .ok true after) :
    after.commands = token.kind.commandsAfter token.offset machine.commands := by
  obtain ⟨kind, offset⟩ := token
  cases kind with
  | number value =>
      obtain ⟨_, pushed, hpush, ⟨⟩⟩ := bind_eq_ok h
      exact keepsCommands_pushNumber value offset _ _ _ hpush
  | named name =>
      obtain ⟨value, _, hnumber⟩ := take_named_eq_ok h
      obtain ⟨_, pushed, hpush, ⟨⟩⟩ := bind_eq_ok hnumber
      exact keepsCommands_pushNumber value offset _ _ _ hpush
  | indexed | prefixFn | openParen =>
      obtain ⟨_, pushed, hpush, ⟨⟩⟩ := bind_eq_ok h
      exact commands_of_pushCommand hpush
  | operator op =>
      obtain ⟨_, settled, hsettle, hrest⟩ := bind_eq_ok h
      obtain ⟨_, pushed, hpush, ⟨⟩⟩ := bind_eq_ok hrest
      rw [commands_of_pushCommand hpush, commands_of_settleUntil hsettle]
      rfl
  | postfixFn f =>
      obtain ⟨_, settled, hsettle, hrest⟩ := bind_eq_ok h
      obtain ⟨_, applied, happly, ⟨⟩⟩ := bind_eq_ok hrest
      rw [keepsCommands_applyPostfixFn setting f offset _ _ _ happly,
        commands_of_settleUntil hsettle]
      rfl
  | closeParen =>
      obtain ⟨_, closed, hclose, ⟨⟩⟩ := bind_eq_ok h
      obtain ⟨settled, opener, below, hsettle, hcommands, rfl⟩ := closeParen_eq_ok hclose
      rw [TokenKind.commandsAfter, ← commands_of_settleUntil hsettle, hcommands, List.tail_cons]
  | closeBracket =>
      obtain ⟨name, opener, hcommands⟩ := commands_of_closeBracket h
      rw [TokenKind.commandsAfter, hcommands, List.tail_cons]
  | lineEnd | foreign => cases h

end Machine
end PocketCalc
