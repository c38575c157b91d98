import Mathlib.Data.List.Chain
import PocketCalc.Token.Basic

/-! How operands and operators balance in tokens that fit together. Every operator joins two of the
operands around it, so that one operand is left over, and one more wherever an operand stands right
behind another. -/

namespace PocketCalc

namespace TokenKind

/-- What a token adds to the numbers that are left when every operator has been applied: an operand
is one number more, and an operator makes one number out of two. -/
def surplus : TokenKind → Int
  | number _ | named _ => 1
  | operator _ => -1
  | _ => 0

/-- An operand is complete and another one begins, with no operator between them. -/
def juxtaposed (previous current : TokenKind) : Bool :=
  !previous.awaitsOperand && !current.needsOperand

/-- A token turns what has to come before it into what it leaves behind. -/
theorem surplus_add_needsOperand (kind : TokenKind) :
    kind.surplus + kind.needsOperand.toNat = (!kind.awaitsOperand).toNat := by
  cases kind <;> rfl

/-- Of two neighbours that fit, the first leaves what the second needs, or there is an operand to
spare. -/
theorem toNat_juxtaposed_add {previous current : TokenKind}
    (h : current.mayFollow previous = true) :
    (juxtaposed previous current).toNat + current.needsOperand.toNat =
      (!previous.awaitsOperand).toNat := by
  simp only [mayFollow, Bool.and_eq_true, Bool.not_eq_true'] at h
  have hpair := h.1
  cases hp : previous.awaitsOperand <;> cases hc : current.needsOperand <;>
    simp_all [juxtaposed]

theorem awaitsOperand_of_isOperator {kind : TokenKind} (h : kind.isOperator = true) :
    kind.awaitsOperand = true := by
  cases kind with
  | operator op => rfl
  | _ => cases h

/-- What needs an operand before it never follows what awaits one. -/
theorem awaitsOperand_of_mayFollow {previous current : TokenKind}
    (h : current.mayFollow previous = true) (hneeds : current.needsOperand = true) :
    previous.awaitsOperand = false := by
  simp only [mayFollow, hneeds, Bool.and_true, Bool.and_eq_true, Bool.not_eq_true'] at h
  exact h.1

end TokenKind

/-- Each token may follow the one before it. -/
def NeighboursFit (tokens : List Token) : Prop :=
  tokens.IsChain fun previous current => current.kind.mayFollow previous.kind = true

/-- The numbers that are left when every operator of the tokens has been applied. -/
def surplus : List Token → Int
  | [] => 0
  | token :: rest => token.kind.surplus + surplus rest

/-- How often an operand stands right behind another. -/
def juxtapositions : List Token → Nat
  | previous :: current :: rest =>
    (TokenKind.juxtaposed previous.kind current.kind).toNat + juxtapositions (current :: rest)
  | _ => 0

@[simp] theorem surplus_nil : surplus [] = 0 := rfl

@[simp] theorem surplus_cons (token : Token) (rest : List Token) :
    surplus (token :: rest) = token.kind.surplus + surplus rest := rfl

@[simp] theorem surplus_append (tokens rest : List Token) :
    surplus (tokens ++ rest) = surplus tokens + surplus rest := by
  induction tokens with
  | nil => simp
  | cons token tokens ih => simp [ih, Int.add_assoc]

/-- Tokens that fit leave one operand for every juxtaposition, and one for themselves unless they
break off where an operand has to come. An operand that they need at their head has to be there. -/
theorem surplus_add_needsOperand {first last : Token} {rest : List Token}
    (hfit : NeighboursFit (first :: rest)) (hlast : (first :: rest).getLast? = some last) :
    surplus (first :: rest) + first.kind.needsOperand.toNat =
      (!last.kind.awaitsOperand).toNat + juxtapositions (first :: rest) := by
  induction rest generalizing first with
  | nil =>
      obtain rfl : first = last := by simpa using hlast
      have hkind := first.kind.surplus_add_needsOperand
      simp only [surplus_cons, surplus_nil, juxtapositions]
      omega
  | cons next rest ih =>
      obtain ⟨hpair, hrest⟩ := List.isChain_cons_cons.mp hfit
      have hnext := ih hrest (by simpa using hlast)
      have hkind := first.kind.surplus_add_needsOperand
      have hjoint := TokenKind.toNat_juxtaposed_add hpair
      -- what the first token leaves is what the next one needs, or else it is to spare
      rw [surplus_cons, juxtapositions]
      omega

/-- More tokens have no fewer juxtapositions. -/
theorem juxtapositions_le_append (tokens rest : List Token) :
    juxtapositions tokens ≤ juxtapositions (tokens ++ rest) := by
  induction tokens with
  | nil => exact Nat.zero_le _
  | cons first tokens ih =>
      cases tokens with
      | nil => exact Nat.zero_le _
      | cons next tokens =>
          simp only [List.cons_append, juxtapositions] at ih ⊢
          omega

/-- The token may follow the last one of the tokens. -/
def Token.FitsBehind (token : Token) (tokens : List Token) : Prop :=
  ∀ last ∈ tokens.getLast?, token.kind.mayFollow last.kind = true

theorem NeighboursFit.concat {tokens : List Token} {token : Token} (h : NeighboursFit tokens)
    (hfit : token.FitsBehind tokens) : NeighboursFit (tokens ++ [token]) := by
  apply List.isChain_append.mpr
  refine ⟨h, List.isChain_singleton token, ?_⟩
  intro last hlast current hcurrent
  cases hcurrent
  exact hfit last hlast

end PocketCalc
