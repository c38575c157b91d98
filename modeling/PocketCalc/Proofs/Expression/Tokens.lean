import PocketCalc.Expression.Basic
import PocketCalc.Proofs.Token.Rows

/-! The tokens of an expression. The row of keys that a tree spells is cut into the tokens of its
parts, in the order in which they are written. -/

namespace PocketCalc.Expression

/-- The tokens of an expression whose first key has the given offset. -/
def tokens (start : Nat) : Expression → List Token
  | number keys =>
    match Literal.read keys with
    | .ok literal => [⟨.number literal.value, start⟩]
    | .error _ => []
  | cell name => [⟨.named name, start⟩]
  | indexed name index =>
    ⟨.indexed name, start⟩ ::
      (index.tokens (start + 2) ++ [⟨.closeBracket, start + 2 + index.keys.length⟩])
  | paren inner =>
    ⟨.openParen, start⟩ ::
      (inner.tokens (start + 1) ++ [⟨.closeParen, start + 1 + inner.keys.length⟩])
  | prefixed f operand => ⟨.prefixFn f, start⟩ :: operand.tokens (start + 1)
  | postfixed operand f =>
    operand.tokens start ++ [⟨.postfixFn f, start + operand.keys.length⟩]
  | binary left op right =>
    left.tokens start ++
      ⟨.operator op, start + left.keys.length⟩ :: right.tokens (start + left.keys.length + 1)

/-- The kind of the last token. -/
def lastKind : Expression → TokenKind
  | number keys =>
    match Literal.read keys with
    | .ok literal => .number literal.value
    | .error _ => .lineEnd
  | cell name => .named name
  | indexed _ _ => .closeBracket
  | paren _ => .closeParen
  | prefixed _ operand => operand.lastKind
  | postfixed _ f => .postfixFn f
  | binary _ _ right => right.lastKind

/-- An expression ends in an operand or in a function after one. -/
theorem lastKind_awaitsOperand (e : Expression) : e.lastKind.awaitsOperand = false := by
  induction e with
  | number keys =>
      unfold lastKind
      split <;> rfl
  | prefixed f operand ih => exact ih
  | binary left op right _ ih => exact ih
  | _ => rfl

/-- Nothing is open at the right end of an operand. -/
theorem rightPrecedence_of_takesPostfixFn {e : Expression} (h : e.takesPostfixFn = true) :
    e.rightPrecedence = PostfixFn.factorial.precedence := by
  cases e with
  | prefixed f operand => cases h
  | binary left op right => cases h
  | _ => rfl

/-- A literal is read to its end. -/
theorem exists_literal_of_isReading {level : Nat} {keys : List Key}
    (h : (number keys).IsReading level) :
    ∃ literal, Literal.read keys = .ok literal ∧ literal.width = keys.length := by
  cases hl : Literal.read keys with
  | error index => simp [IsReading, hl, Except.toOption] at h
  | ok literal => exact ⟨literal, rfl, by simpa [IsReading, hl, Except.toOption] using h⟩

/-- A row of digits and dots is a token of its own. -/
theorem tokenize_literal {literal : Literal} {keys : List Key} (start : Nat)
    (h : Literal.read keys = .ok literal) (hw : literal.width = keys.length) :
    tokenize start keys =
      ([⟨.number literal.value, start⟩], .stop (start + keys.length)) := by
  have hpos := (Literal.width_of_read h).1
  cases keys with
  | nil => simp at hw; omega
  | cons key keys =>
      have hr : TokenKind.read (key :: keys) = .ok (.number literal.value, literal.width) := by
        cases key with
        | digit n => simp only [TokenKind.read, h]; rfl
        | dot => simp only [TokenKind.read, h]; rfl
        | _ =>
            -- any other key would have ended the literal before its first digit
            simp only [Literal.read, Literal.extend] at h
            split at h <;> cases h
            simp at hpos
      have hd : keys.drop (literal.width - 1) = [] := by
        simp only [hw, List.length_cons, Nat.add_sub_cancel, List.drop_length]
      rw [tokenize_of_read _ _ hr rfl, hd, tokenize_nil, hw]

/-- The tree and its row of keys have the same tokens, and the row is read to its end. -/
theorem tokenize_keys {e : Expression} {level : Nat} (h : e.IsReading level) (start : Nat) :
    tokenize start e.keys = (e.tokens start, .stop (start + e.keys.length)) := by
  induction e generalizing level start with
  | number digits =>
      obtain ⟨literal, hl, hw⟩ := exists_literal_of_isReading h
      simp only [keys, tokens, hl]
      exact tokenize_literal start hl hw
  | cell name =>
      simp only [keys, tokens]
      rw [tokenize_of_read (.named name) 1 rfl rfl]
      simp [tokenize_nil]
  | indexed name index ih =>
      have hi := ih h (start + 2)
      simp only [keys, tokens]
      rw [tokenize_of_read (.indexed name) 2 rfl rfl]
      simp only [Nat.add_one_sub_one, List.drop_succ_cons, List.drop_zero]
      rw [tokenize_append (startsAfresh_cons.mpr rfl), hi, if_pos rfl,
        tokenize_of_read .closeBracket 1 rfl rfl]
      simp only [Nat.sub_self, List.drop_nil, tokenize_nil, List.length_cons, List.length_append,
        List.length_nil, Nat.zero_add, Prod.mk.injEq, Ending.stop.injEq, true_and]
      omega
  | paren inner ih =>
      have hi := ih h (start + 1)
      simp only [keys, tokens]
      rw [tokenize_of_read .openParen 1 rfl rfl]
      simp only [Nat.sub_self, List.drop_zero]
      rw [tokenize_append (startsAfresh_cons.mpr rfl), hi, if_pos rfl,
        tokenize_of_read .closeParen 1 rfl rfl]
      simp only [Nat.sub_self, List.drop_nil, tokenize_nil, List.length_cons, List.length_append,
        List.length_nil, Nat.zero_add, Prod.mk.injEq, Ending.stop.injEq, true_and]
      omega
  | prefixed f operand ih =>
      have ho := ih h (start + 1)
      simp only [keys, tokens]
      rw [tokenize_of_read (.prefixFn f) 1 rfl rfl]
      simp only [Nat.sub_self, List.drop_zero]
      rw [ho]
      simp only [List.length_cons, Prod.mk.injEq, Ending.stop.injEq, true_and]
      omega
  | postfixed operand f ih =>
      have ho := ih h.2 start
      simp only [keys, tokens]
      rw [tokenize_append (startsAfresh_cons.mpr rfl), ho, if_pos rfl,
        tokenize_of_read (.postfixFn f) 1 rfl rfl]
      simp only [Nat.sub_self, List.drop_nil, tokenize_nil, List.length_cons, List.length_append,
        List.length_nil, Nat.zero_add, Prod.mk.injEq, Ending.stop.injEq, true_and]
      omega
  | binary left op right ihl ihr =>
      obtain ⟨_, _, hl, hr⟩ := h
      have htl := ihl hl start
      have htr := ihr hr (start + left.keys.length + 1)
      simp only [keys, tokens]
      rw [tokenize_append (startsAfresh_cons.mpr rfl), htl, if_pos rfl,
        tokenize_of_read (.operator op) 1 rfl rfl]
      simp only [Nat.sub_self, List.drop_zero]
      rw [htr]
      simp only [List.length_append, List.length_cons, Prod.mk.injEq, Ending.stop.injEq, true_and]
      omega

end PocketCalc.Expression
