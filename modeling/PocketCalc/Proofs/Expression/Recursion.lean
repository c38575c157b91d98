import PocketCalc.Proofs.Expression.Tokens
import PocketCalc.Proofs.Solver.Settling

/-! Evaluating an expression on the stacks in the order of its tree, and evaluating it as far as its
tokens allow. The second lags behind: the operators and functions at the right end of the tree are
still on the stack when the last token has been taken. Whatever comes next settles them first, and
from then on both have done the same. -/

namespace PocketCalc

namespace Expression

open Machine

variable {setting : Setting} {machine : Machine}

/-- Evaluates an expression by recursion on the tree, each operation right after its operands. -/
def perform (setting : Setting) (start : Nat) : Expression → Run Unit
  | number keys =>
    match Literal.read keys with
    | .ok literal => pushNumber literal.value start
    | .error index => throw (.malformed .number (start + index))
  | cell name =>
    match setting.cell? name 0 with
    | none => throw (.noSuchCell start)
    | some value => pushNumber value start
  | indexed name index => do
    awaiting (.index name) start (index.perform setting (start + 2))
    fetch setting name (start + 2 + index.keys.length)
  | paren inner => awaiting .paren start (inner.perform setting (start + 1))
  | prefixed f operand => do
    awaiting (.prefixFn f) start (operand.perform setting (start + 1))
    applyPrefixFn setting f start
  | postfixed operand f => do
    operand.perform setting start
    applyPostfixFn setting f (start + operand.keys.length)
  | binary left op right => do
    left.perform setting start
    awaiting (.operator op) (start + left.keys.length)
      (right.perform setting (start + left.keys.length + 1))
    applyOperator op (start + left.keys.length)

/-- Evaluates an expression as far as its tokens allow: the operators and functions at its right end
stay on the stack, since a token may follow that binds more tightly. -/
def advance (setting : Setting) (start : Nat) : Expression → Run Unit
  | prefixed f operand => do
    pushCommand (.prefixFn f) start
    operand.advance setting (start + 1)
  | binary left op right => do
    left.perform setting start
    pushCommand (.operator op) (start + left.keys.length)
    right.advance setting (start + left.keys.length + 1)
  | e => e.perform setting start

theorem keepsCommands_perform (setting : Setting) (e : Expression) (start : Nat) :
    KeepsCommands (e.perform setting start) := by
  induction e generalizing start with
  | number digits =>
      unfold perform
      split
      · exact keepsCommands_pushNumber _ start
      · exact keepsCommands_throw _
  | cell name =>
      unfold perform
      split
      · exact keepsCommands_throw _
      · exact keepsCommands_pushNumber _ start
  | indexed name index ih =>
      exact (keepsCommands_awaiting (ih _) _ _).bind fun _ => keepsCommands_fetch setting name _
  | paren inner ih => exact keepsCommands_awaiting (ih _) _ _
  | prefixed f operand ih =>
      exact (keepsCommands_awaiting (ih _) _ _).bind fun _ =>
        keepsCommands_applyPrefixFn setting f start
  | postfixed operand f ih =>
      exact (ih start).bind fun _ => keepsCommands_applyPostfixFn setting f _
  | binary left op right ihl ihr =>
      exact (ihl start).bind fun _ => (keepsCommands_awaiting (ihr _) _ _).bind fun _ =>
        keepsCommands_applyOperator op _

/-- No operator or function waits at the right end of an operand. -/
theorem precedence_le_rightPrecedence {e : Expression} (h : e.takesPostfixFn = true)
    (f : PostfixFn) : f.precedence ≤ e.rightPrecedence := by
  rw [rightPrecedence_of_takesPostfixFn h]
  exact Nat.le_refl _

/-- What settles the right end of an expression makes up for the lag. -/
theorem settleUntil_advance {stays : CommandKind → Bool} (e : Expression)
    (hs : Settles stays e.rightPrecedence) (start : Nat) (machine : Machine) :
    (e.advance setting start >>= fun _ => settleUntil setting stays) machine =
      (e.perform setting start >>= fun _ => settleUntil setting stays) machine := by
  induction e generalizing start machine with
  | prefixed f operand ih =>
      have hf : stays (.prefixFn f) = false := hs.2 f (Nat.min_le_left _ _)
      have ho := ih (hs.mono (Nat.min_le_right _ _)) (start + 1)
      simp only [advance, perform, bind_assoc]
      rw [bind_congr_of_ok fun _ pushed _ => ho pushed]
      exact settleUntil_of_pushCommand (keepsCommands_perform setting operand _) hf start machine
  | binary left op right _ ih =>
      have hop : stays (.operator op) = false := hs.1 op (Nat.min_le_left _ _)
      have hr := ih (hs.mono (Nat.min_le_right _ _)) (start + left.keys.length + 1)
      simp only [advance, perform, bind_assoc]
      refine bind_congr_of_ok fun _ next _ => ?_
      rw [bind_congr_of_ok fun _ pushed _ => hr pushed]
      exact settleUntil_of_pushCommand (keepsCommands_perform setting right _) hop _ next
  | _ => rfl

/-- Where nothing below the expression is to be settled, the run goes on from its value. -/
theorem advance_bind_settleUntil {β : Type} {stays : CommandKind → Bool} {e : Expression}
    (hs : Settles stays e.rightPrecedence)
    (hstays : ∀ command ∈ machine.commands.head?, stays command.kind = true) (start : Nat)
    (next : Unit → Run β) :
    (e.advance setting start >>= fun _ => settleUntil setting stays >>= next) machine =
      (e.perform setting start >>= next) machine := by
  rw [← bind_assoc, bind_congr_left (settleUntil_advance e hs start machine), bind_assoc]
  refine bind_congr_of_ok fun _ after h => ?_
  have hc := keepsCommands_perform setting e start machine _ after h
  rw [bind_of_ok (settleUntil_of_stays (by rwa [hc]))]

end Expression
end PocketCalc
