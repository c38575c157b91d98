import PocketCalc.Proofs.Expression.Recursion
import PocketCalc.Proofs.Expression.Tokens

/-! Scanning the tokens of an expression. One token after the other is taken, and the machine goes
through the same states as in the evaluation of the tree. -/

namespace PocketCalc

namespace TokenKind

/-- Where an operand has to come next, any token that begins one may come. -/
theorem mayFollow_of_awaitsOperand {current previous : TokenKind}
    (hp : previous.awaitsOperand = true) (hc : current.needsOperand = false) :
    current.mayFollow previous = true := by
  have hr : previous.refusesNumber = false := by
    cases previous with
    | postfixFn | closeParen | named => cases hp
    | _ => rfl
  simp [mayFollow, hc, hr]

/-- After an operand only a number may be out of place. -/
theorem mayFollow_of_not_awaitsOperand {current previous : TokenKind}
    (hp : previous.awaitsOperand = false) (hc : current.isNumber = false) :
    current.mayFollow previous = true := by
  simp [mayFollow, hp, hc]

end TokenKind

namespace Machine

variable {setting : Setting}

/-- An operand comes next, or nothing has come before. -/
def AwaitsOperand (previous : Option TokenKind) : Prop :=
  ∀ kind ∈ previous, kind.awaitsOperand = true

theorem awaitsOperand_none : AwaitsOperand none := by
  simp [AwaitsOperand]

theorem awaitsOperand_some {kind : TokenKind} (h : kind.awaitsOperand = true) :
    AwaitsOperand (some kind) := by
  simpa [AwaitsOperand] using h

theorem AwaitsOperand.mayFollow {previous : Option TokenKind} (h : AwaitsOperand previous)
    {current : TokenKind} (hc : current.needsOperand = false) :
    ∀ kind ∈ previous, current.mayFollow kind = true :=
  fun kind hk => TokenKind.mayFollow_of_awaitsOperand (h kind hk) hc

/-- Scanning goes on behind every token but a bracket that closes nothing. -/
theorem scan_of_take {previous : Option TokenKind} {token : Token} {step : Run Unit}
    (hf : ∀ kind ∈ previous, token.kind.mayFollow kind = true)
    (ht : take setting token = (step >>= fun _ => pure true)) (rest : List Token)
    (ending : Ending) :
    scan setting previous (token :: rest) ending =
      (step >>= fun _ => scan setting (some token.kind) rest ending) := by
  rw [scan_cons hf, ht]
  simp only [bind_assoc, pure_bind, if_true]

end Machine

namespace Expression

open Machine

variable {setting : Setting} {machine : Machine}

theorem advance_bind_closeParen {e : Expression} {opener offset : Nat} {below : List Command}
    (hc : machine.commands = ⟨.paren, opener⟩ :: below) (start : Nat) :
    (e.advance setting start >>= fun _ => closeParen setting offset) machine =
      (e.perform setting start >>= fun _ => dropCommand) machine := by
  unfold closeParen
  rw [advance_bind_settleUntil (settles_isOpener _) (by simp [hc, CommandKind.isOpener])]
  refine bind_congr_of_ok fun _ after h => ?_
  have hafter := (keepsCommands_perform setting e start _ _ _ h).trans hc
  have hget : (get : Run Machine) after = .ok after after := rfl
  rw [bind_of_ok hget, hafter]
  simp only [setCommands, dropCommand, hafter, List.tail_cons]

theorem advance_bind_closeBracket {e : Expression} {name : Char} {opener offset : Nat}
    {below : List Command} (hc : machine.commands = ⟨.index name, opener⟩ :: below) (start : Nat) :
    (e.advance setting start >>= fun _ => closeBracket setting offset) machine =
      (e.perform setting start >>= fun _ => dropCommand >>= fun _ =>
        fetch setting name offset >>= fun _ => pure true) machine := by
  unfold closeBracket
  rw [advance_bind_settleUntil (settles_isIndex _) (by simp [hc, CommandKind.isIndex])]
  refine bind_congr_of_ok fun _ after h => ?_
  have hafter := (keepsCommands_perform setting e start _ _ _ h).trans hc
  have hget : (get : Run Machine) after = .ok after after := rfl
  rw [bind_of_ok hget, hafter]
  refine bind_congr_left ?_ _
  simp only [setCommands, dropCommand, hafter, List.tail_cons]

/-- After an expression anything may come but a number. -/
theorem mayFollow_lastKind {kind : TokenKind} (hk : kind.isNumber = false) (e : Expression) :
    ∀ last ∈ some e.lastKind, kind.mayFollow last = true := by
  rintro last ⟨⟩
  exact TokenKind.mayFollow_of_not_awaitsOperand e.lastKind_awaitsOperand hk

/-- The tokens of an expression are taken as its tree tells, from every machine whose commands wait
for all of it. -/
theorem scan_tokens {e : Expression} {level : Nat} (h : e.IsReading level)
    (hlevel : level < PostfixFn.factorial.precedence) {previous : Option TokenKind}
    (hp : AwaitsOperand previous) (hg : Guards level machine.commands) (start : Nat)
    (rest : List Token) (ending : Ending) :
    scan setting previous (e.tokens start ++ rest) ending machine =
      (e.advance setting start >>= fun _ => scan setting (some e.lastKind) rest ending)
        machine := by
  -- What follows the expression is arbitrary, so that an operand can be cut out of the tokens
  -- around it; the guards say that nothing below the expression is settled inside of it.
  induction e generalizing level previous machine start rest with
  | number digits =>
      obtain ⟨literal, hl, _⟩ := exists_literal_of_isReading h
      simp only [tokens, advance, perform, lastKind, hl]
      exact congrFun (scan_of_take (hp.mayFollow rfl) rfl rest ending) _
  | cell name =>
      simp only [tokens, advance, perform, lastKind]
      refine congrFun (scan_of_take (hp.mayFollow rfl) ?_ rest ending) _
      cases hcell : setting.cell? name 0 with
      | none => simp only [take, hcell]; rfl
      | some value => simp only [take, hcell]
  | indexed name index ih =>
      simp only [tokens, advance, perform, awaiting, lastKind, List.cons_append, List.append_assoc,
        List.nil_append, bind_assoc]
      rw [scan_of_take (hp.mayFollow rfl) rfl]
      refine bind_congr_of_ok fun _ pushed hpush => ?_
      have hc := commands_of_pushCommand hpush
      rw [ih h (by decide) (awaitsOperand_some rfl) (by rw [hc]; exact guards_index name start _),
        scan_cons (mayFollow_lastKind rfl index)]
      simp only [take]
      rw [← bind_assoc, bind_congr_left (advance_bind_closeBracket hc _)]
      simp only [bind_assoc, pure_bind, if_true]
  | paren inner ih =>
      simp only [tokens, advance, perform, awaiting, lastKind, List.cons_append, List.append_assoc,
        List.nil_append, bind_assoc]
      rw [scan_of_take (hp.mayFollow rfl) rfl]
      refine bind_congr_of_ok fun _ pushed hpush => ?_
      have hc := commands_of_pushCommand hpush
      rw [ih h (by decide) (awaitsOperand_some rfl) (by rw [hc]; exact guards_paren start _),
        scan_of_take (mayFollow_lastKind rfl inner) rfl, ← bind_assoc,
        bind_congr_left (advance_bind_closeParen hc _)]
      simp only [bind_assoc]
  | prefixed f operand ih =>
      simp only [tokens, advance, lastKind, List.cons_append, bind_assoc]
      rw [scan_of_take (hp.mayFollow rfl) rfl]
      refine bind_congr_of_ok fun _ pushed hpush => ?_
      exact ih h (f.precedence_lt_postfixFn .factorial) (awaitsOperand_some rfl)
        (by rw [commands_of_pushCommand hpush]; exact guards_prefixFn f start _) _ _
  | postfixed operand f ih =>
      obtain ⟨htakes, ho⟩ := h
      have hstays : ∀ command ∈ machine.commands.head?,
          command.kind.bindsLessThan f.precedence = true :=
        fun command hc => hg command hc _ hlevel
      have hs : Settles (CommandKind.bindsLessThan f.precedence) operand.rightPrecedence :=
        settles_bindsLessThan (precedence_le_rightPrecedence htakes f)
      simp only [tokens, advance, perform, lastKind, List.append_assoc, List.cons_append,
        List.nil_append, bind_assoc]
      rw [ih ho hlevel hp hg, scan_cons (mayFollow_lastKind rfl operand)]
      simp only [take, bind_assoc, pure_bind, if_true]
      exact advance_bind_settleUntil hs hstays start _
  | binary left op right ihl ihr =>
      obtain ⟨hop, hright, hl, hr⟩ := h
      have hstays : ∀ command ∈ machine.commands.head?,
          command.kind.bindsLessThan op.precedence = true :=
        fun command hc => hg command hc _ hop
      simp only [tokens, advance, lastKind, List.append_assoc, List.cons_append, bind_assoc]
      rw [ihl hl hlevel hp hg, scan_cons (mayFollow_lastKind rfl left)]
      simp only [take, bind_assoc, pure_bind, if_true]
      rw [advance_bind_settleUntil (settles_bindsLessThan hright) hstays]
      refine bind_congr_of_ok fun _ next hnext => bind_congr_of_ok fun _ pushed hpush => ?_
      exact ihr hr (op.precedence_lt_postfixFn .factorial) (awaitsOperand_some rfl)
        (by rw [commands_of_pushCommand hpush]; exact guards_operator op _ _) _ _

end Expression
end PocketCalc
