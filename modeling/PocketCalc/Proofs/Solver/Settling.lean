import PocketCalc.Proofs.Solver.Equations

/-! Which commands are settled when. A command waits on the stack for its operand, and whatever
comes after the operand settles it or is guarded from it by the precedences of both. -/

namespace PocketCalc

namespace Machine

variable {setting : Setting} {stays : CommandKind → Bool} {machine : Machine}

/-- Settling in two goes is settling down to the second halt, if that lies no higher. -/
theorem settleUntil_settleUntil {deeper : CommandKind → Bool}
    (h : ∀ kind, deeper kind = true → stays kind = true) (machine : Machine) :
    (settleUntil setting stays >>= fun _ => settleUntil setting deeper) machine =
      settleUntil setting deeper machine := by
  induction hc : machine.commands generalizing machine with
  | nil =>
      rw [bind_of_ok (settleUntil_of_commands_nil hc)]
  | cons command below ih =>
      by_cases hs : stays command.kind = true
      · rw [bind_of_ok (settleUntil_of_top_stays hc hs)]
      · simp only [Bool.not_eq_true] at hs
        have hd : deeper command.kind = false := by
          rw [Bool.eq_false_iff]
          intro hd
          rw [h _ hd] at hs
          cases hs
        rw [bind_congr_left (settleUntil_of_not_stays hc hs), settleUntil_of_not_stays hc hd,
          bind_assoc]
        refine bind_congr_of_ok fun _ after hafter => ih after ?_
        exact keepsCommands_settle setting command _ _ after hafter

/-- What holds where settling halts, and goes back over each command that is settled, holds of all
that settling does. -/
@[elab_as_elim]
theorem settleUntil_induction {motive : Machine → Machine → Prop} {after : Machine}
    (hhalt : ∀ machine, (∀ command ∈ machine.commands.head?, stays command.kind = true) →
      motive machine machine)
    (hsettle : ∀ (machine settled after : Machine) (command : Command) (below : List Command),
      machine.commands = command :: below → stays command.kind = false →
      settle setting command { machine with commands := below } = .ok () settled →
      settled.commands = below → motive settled after → motive machine after)
    (h : settleUntil setting stays machine = .ok () after) : motive machine after := by
  induction hc : machine.commands generalizing machine with
  | nil =>
      rw [settleUntil_of_commands_nil hc] at h
      cases h
      exact hhalt after (by simp [hc])
  | cons command below ih =>
      by_cases hs : stays command.kind = true
      · rw [settleUntil_of_top_stays hc hs] at h
        cases h
        exact hhalt after (by simpa [hc] using hs)
      · simp only [Bool.not_eq_true] at hs
        rw [settleUntil_of_not_stays hc hs] at h
        obtain ⟨_, settled, hrun, hrest⟩ := bind_eq_ok h
        have hbelow := keepsCommands_settle setting command _ _ settled hrun
        exact hsettle machine settled after command below hc hs hrun hbelow (ih hrest hbelow)

/-- Settling leaves the commands from the first one that is to stay. -/
theorem commands_of_settleUntil {after : Machine}
    (h : settleUntil setting stays machine = .ok () after) :
    after.commands = machine.commands.dropWhile fun command => !stays command.kind := by
  refine settleUntil_induction (fun machine htop => ?_) ?_ h
  · cases hc : machine.commands with
    | nil => rfl
    | cons command below =>
        have hs : stays command.kind = true := htop command (by rw [hc]; rfl)
        rw [List.dropWhile_cons_of_neg (by simp [hs])]
  · intro machine settled after command below hc hs _ hbelow ih
    rw [ih, hbelow, hc, List.dropWhile_cons_of_pos (by simp [hs])]

/-- The command that is left on top is one that is to stay. -/
theorem stays_of_settleUntil {after : Machine}
    (h : settleUntil setting stays machine = .ok () after) :
    ∀ command ∈ after.commands.head?, stays command.kind = true := by
  intro command hcommand
  have htop := List.head?_dropWhile_not (fun command => !stays command.kind) machine.commands
  rw [← commands_of_settleUntil h, Option.mem_def.mp hcommand] at htop
  simpa using htop

/-- The end of an expression leaves nothing pending. -/
theorem commands_of_settleUntil_never {after : Machine}
    (h : settleUntil setting (fun _ => false) machine = .ok () after) : after.commands = [] := by
  cases hc : after.commands with
  | nil => rfl
  | cons command below => cases stays_of_settleUntil h command (by rw [hc]; rfl)

/-- Takes the top command off the stack. -/
def dropCommand : Run Unit := fun machine =>
  .ok () { machine with commands := machine.commands.tail }

/-- A command waits on the stack while its operand is evaluated. -/
def awaiting (kind : CommandKind) (offset : Nat) (operand : Run Unit) : Run Unit := do
  pushCommand kind offset
  operand
  dropCommand

theorem commands_of_pushCommand {kind : CommandKind} {offset : Nat} {after : Machine}
    (h : pushCommand kind offset machine = .ok () after) :
    after.commands = ⟨kind, offset⟩ :: machine.commands := by
  unfold pushCommand at h
  split at h <;> cases h
  rfl

theorem keepsCommands_awaiting {operand : Run Unit} (h : KeepsCommands operand)
    (kind : CommandKind) (offset : Nat) : KeepsCommands (awaiting kind offset operand) := by
  intro machine a after hrun
  unfold awaiting at hrun
  cases hpush : pushCommand kind offset machine with
  | error fault pushed =>
      rw [bind_of_error hpush] at hrun
      cases hrun
  | ok u pushed =>
      rw [bind_of_ok hpush] at hrun
      cases hop : operand pushed with
      | error fault done =>
          rw [bind_of_error hop] at hrun
          cases hrun
      | ok u done =>
          rw [bind_of_ok hop] at hrun
          cases hrun
          simp [h pushed u done hop, commands_of_pushCommand hpush]

/-- A command that is not to stay is settled as soon as its operand is complete. -/
theorem settleUntil_of_pushCommand {operand : Run Unit} (hk : KeepsCommands operand)
    {kind : CommandKind} (hs : stays kind = false) (offset : Nat) (machine : Machine) :
    (pushCommand kind offset >>= fun _ => operand >>= fun _ => settleUntil setting stays) machine =
      (awaiting kind offset operand >>= fun _ => settle setting ⟨kind, offset⟩ >>= fun _ =>
        settleUntil setting stays) machine := by
  simp only [awaiting, bind_assoc]
  refine bind_congr_of_ok fun _ pushed hpush => bind_congr_of_ok fun _ done hop => ?_
  have hc : done.commands = ⟨kind, offset⟩ :: machine.commands :=
    (hk pushed _ done hop).trans (commands_of_pushCommand hpush)
  rw [settleUntil_of_not_stays hc hs]
  have hd : dropCommand done = .ok () { done with commands := machine.commands } := by
    simp only [dropCommand, hc, List.tail_cons]
  rw [bind_of_ok hd]

/-- Every operator and function of the given precedence or a higher one is settled. -/
def Settles (stays : CommandKind → Bool) (precedence : Nat) : Prop :=
  (∀ op : Operator, precedence ≤ op.precedence → stays (.operator op) = false) ∧
    ∀ f : PrefixFn, precedence ≤ f.precedence → stays (.prefixFn f) = false

theorem Settles.mono {low high : Nat} (h : Settles stays low) (hle : low ≤ high) :
    Settles stays high :=
  ⟨fun op hop => h.1 op (Nat.le_trans hle hop), fun f hf => h.2 f (Nat.le_trans hle hf)⟩

theorem settles_bindsLessThan {low high : Nat} (h : low ≤ high) :
    Settles (CommandKind.bindsLessThan low) high := by
  constructor
  · intro op hop
    simp only [CommandKind.bindsLessThan, decide_eq_false_iff_not]
    omega
  · intro f hf
    simp only [CommandKind.bindsLessThan, decide_eq_false_iff_not]
    omega

theorem settles_isOpener (precedence : Nat) : Settles CommandKind.isOpener precedence :=
  ⟨fun _ _ => rfl, fun _ _ => rfl⟩

theorem settles_isIndex (precedence : Nat) : Settles CommandKind.isIndex precedence :=
  ⟨fun _ _ => rfl, fun _ _ => rfl⟩

theorem settles_never (precedence : Nat) : Settles (fun _ => false) precedence :=
  ⟨fun _ _ => rfl, fun _ _ => rfl⟩

/-- The top of the stack stays for everything that binds more tightly than the level. -/
def Guards (level : Nat) (commands : List Command) : Prop :=
  ∀ command ∈ commands.head?, ∀ precedence, level < precedence →
    command.kind.bindsLessThan precedence = true

theorem guards_nil (level : Nat) : Guards level [] := by
  simp [Guards]

theorem guards_operator (op : Operator) (offset : Nat) (below : List Command) :
    Guards op.precedence (⟨.operator op, offset⟩ :: below) := by
  simp [Guards, CommandKind.bindsLessThan]

theorem guards_prefixFn (f : PrefixFn) (offset : Nat) (below : List Command) :
    Guards f.precedence (⟨.prefixFn f, offset⟩ :: below) := by
  simp [Guards, CommandKind.bindsLessThan]

theorem guards_paren (offset : Nat) (below : List Command) :
    Guards 0 (⟨.paren, offset⟩ :: below) := by
  simp [Guards, CommandKind.bindsLessThan]

theorem guards_index (name : Char) (offset : Nat) (below : List Command) :
    Guards 0 (⟨.index name, offset⟩ :: below) := by
  simp [Guards, CommandKind.bindsLessThan]

end Machine
end PocketCalc
