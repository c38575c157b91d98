import PocketCalc.Proofs.Solver.Pending

/-! The brackets that are open. They can be told from the tokens alone, and the stack of commands
holds the same ones. -/

namespace PocketCalc

inductive Bracket where
  | paren
  | index
  deriving DecidableEq, Repr

/-- The brackets that are open behind a token, the innermost first. A closing bracket closes the
parentheses in its index as well. -/
def TokenKind.bracketsAfter (opened : List Bracket) : TokenKind → List Bracket
  | openParen => .paren :: opened
  | indexed _ => .index :: opened
  | closeParen => opened.tail
  | closeBracket => (opened.dropWhile fun bracket => bracket != .index).tail
  | _ => opened

/-- The brackets that the tokens leave open, the innermost first. -/
def openBrackets (tokens : List Token) : List Bracket :=
  tokens.foldl (fun opened token => token.kind.bracketsAfter opened) []

@[simp] theorem openBrackets_nil : openBrackets [] = [] := rfl

@[simp] theorem openBrackets_concat (tokens : List Token) (token : Token) :
    openBrackets (tokens ++ [token]) = token.kind.bracketsAfter (openBrackets tokens) := by
  simp [openBrackets]

def CommandKind.bracket? : CommandKind → Option Bracket
  | paren => some .paren
  | index _ => some .index
  | _ => none

namespace Machine

variable {setting : Setting} {stays : CommandKind → Bool} {machine after : Machine}

/-- The brackets among the commands, the innermost first. -/
def brackets (commands : List Command) : List Bracket :=
  commands.filterMap fun command => command.kind.bracket?

@[simp] theorem brackets_cons (command : Command) (below : List Command) :
    brackets (command :: below) = command.kind.bracket?.toList ++ brackets below := by
  cases hb : command.kind.bracket? <;> simp [brackets, hb]

/-- No bracket is among the commands above the first one that is to stay, if brackets are. -/
theorem brackets_dropWhile
    (hstays : ∀ kind : CommandKind, kind.bracket?.isSome = true → stays kind = true)
    (commands : List Command) :
    brackets (commands.dropWhile fun command => !stays command.kind) = brackets commands := by
  refine filterMap_dropWhile (fun command hs => ?_) commands
  cases hb : command.kind.bracket? with
  | none => rfl
  | some bracket =>
      rw [hstays command.kind (by rw [hb]; rfl)] at hs
      cases hs

/-- Above the innermost index only parentheses are open. -/
theorem brackets_dropWhile_isIndex (commands : List Command) :
    brackets (commands.dropWhile fun command => !command.kind.isIndex) =
      (brackets commands).dropWhile fun bracket => bracket != .index := by
  induction commands with
  | nil => rfl
  | cons command below ih =>
      obtain ⟨kind, offset⟩ := command
      cases kind with
      | index name => rfl
      | _ => simpa [CommandKind.isIndex, CommandKind.bracket?] using ih

/-- Settling down to a bracket leaves all of them open. -/
theorem brackets_of_settleUntil (h : settleUntil setting stays machine = .ok () after)
    (hstays : ∀ kind : CommandKind, kind.bracket?.isSome = true → stays kind = true) :
    brackets after.commands = brackets machine.commands := by
  rw [commands_of_settleUntil h, brackets_dropWhile hstays]

theorem bindsLessThan_of_bracket {kind : CommandKind} (h : kind.bracket?.isSome = true)
    (precedence : Nat) : kind.bindsLessThan precedence = true := by
  cases kind with
  | paren | index => rfl
  | operator | prefixFn => cases h

theorem isOpener_of_bracket {kind : CommandKind} (h : kind.bracket?.isSome = true) :
    kind.isOpener = true := by
  cases kind with
  | paren | index => rfl
  | operator | prefixFn => cases h

theorem brackets_of_closeParen {offset : Nat}
    (h : closeParen setting offset machine = .ok () after) :
    brackets machine.commands = .paren :: brackets after.commands := by
  obtain ⟨settled, opener, below, hsettle, hcommands, rfl⟩ := closeParen_eq_ok h
  rw [← brackets_of_settleUntil hsettle fun _ => isOpener_of_bracket, hcommands, brackets_cons]
  rfl

/-- Where settling comes to no parenthesis, none is the innermost bracket. -/
theorem head?_brackets_ne_paren
    (h : settleUntil setting CommandKind.isOpener machine = .ok () after)
    (hnone : ∀ command ∈ after.commands.head?, command.kind ≠ .paren) :
    (brackets machine.commands).head? ≠ some .paren := by
  rw [← brackets_of_settleUntil h fun _ => isOpener_of_bracket]
  have htop := stays_of_settleUntil h
  cases hcommands : after.commands with
  | nil => simp [brackets]
  | cons command below =>
      rw [hcommands] at hnone htop
      have hparen := hnone command rfl
      have hopener := htop command rfl
      obtain ⟨kind, offset⟩ := command
      cases kind with
      | paren => exact absurd rfl hparen
      | index name => simp [CommandKind.bracket?]
      | operator | prefixFn => cases hopener

theorem brackets_of_closeBracket {offset : Nat}
    (h : closeBracket setting offset machine = .ok true after) :
    (brackets machine.commands).dropWhile (fun bracket => bracket != .index) =
      .index :: brackets after.commands := by
  obtain ⟨name, opener, hcommands⟩ := commands_of_closeBracket h
  rw [← brackets_dropWhile_isIndex, hcommands, brackets_cons]
  rfl

/-- The first command that stays is the innermost bracket that is left, if only brackets stay. -/
theorem brackets_tail_dropWhile
    (hstays : ∀ kind : CommandKind, stays kind = true → kind.bracket?.isSome = true)
    (commands : List Command) :
    brackets (commands.dropWhile fun command => !stays command.kind).tail =
      (brackets (commands.dropWhile fun command => !stays command.kind)).tail := by
  have htop := List.head?_dropWhile_not (fun command => !stays command.kind) commands
  cases hdrop : commands.dropWhile fun command => !stays command.kind with
  | nil => rfl
  | cons command below =>
      rw [hdrop] at htop
      obtain ⟨bracket, hbracket⟩ :=
        Option.isSome_iff_exists.mp (hstays command.kind (by simpa using htop))
      rw [brackets_cons, hbracket]
      rfl

theorem bracket_of_isOpener {kind : CommandKind} (h : kind.isOpener = true) :
    kind.bracket?.isSome = true := by
  cases kind with
  | paren | index => rfl
  | operator | prefixFn => cases h

/-- A token does to the brackets among the commands what it does to those before it. -/
theorem brackets_commandsAfter (kind : TokenKind) (offset : Nat) (commands : List Command) :
    brackets (kind.commandsAfter offset commands) = kind.bracketsAfter (brackets commands) := by
  cases kind with
  | operator op =>
      rw [TokenKind.commandsAfter, brackets_cons,
        brackets_dropWhile fun _ hb => bindsLessThan_of_bracket hb op.precedence]
      rfl
  | postfixFn f => exact brackets_dropWhile (fun _ hb => bindsLessThan_of_bracket hb f.precedence) _
  | closeParen =>
      refine (brackets_tail_dropWhile (fun _ => bracket_of_isOpener) commands).trans ?_
      rw [brackets_dropWhile fun _ => isOpener_of_bracket]
      rfl
  | closeBracket =>
      have hindex (kind : CommandKind) (h : kind.isIndex = true) : kind.bracket?.isSome = true :=
        bracket_of_isOpener (CommandKind.isOpener_of_isIndex h)
      refine (brackets_tail_dropWhile hindex commands).trans ?_
      rw [brackets_dropWhile_isIndex]
      rfl
  | _ => rfl

theorem brackets_of_take {token : Token} (h : take setting token machine = .ok true after) :
    brackets after.commands = token.kind.bracketsAfter (brackets machine.commands) := by
  rw [commands_of_take h, brackets_commandsAfter]

end Machine
end PocketCalc
