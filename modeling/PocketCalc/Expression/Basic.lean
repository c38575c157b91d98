import PocketCalc.Literal

/-! Expressions as trees, and the rows of keys that spell them. Operators of equal precedence are
grouped from the left; a function before its operand takes all operators that bind more tightly. -/

namespace PocketCalc

inductive Expression where
  | number (keys : List Key)
  | cell (name : Char)
  | indexed (name : Char) (index : Expression)
  | paren (inner : Expression)
  | prefixed (f : PrefixFn) (operand : Expression)
  | postfixed (operand : Expression) (f : PostfixFn)
  | binary (left : Expression) (op : Operator) (right : Expression)
  deriving DecidableEq, Repr

namespace Expression

def keys : Expression → List Key
  | number keys => keys
  | cell name => [.letter name]
  | indexed name index => .letter name :: .openBracket :: (index.keys ++ [.closeBracket])
  | paren inner => .openParen :: (inner.keys ++ [.closeParen])
  | prefixed f operand => .prefixFn f :: operand.keys
  | postfixed operand f => operand.keys ++ [.postfixFn f]
  | binary left op right => left.keys ++ .operator op :: right.keys

/-- A function may follow that takes the whole expression as its operand. -/
def takesPostfixFn : Expression → Bool
  | number _ | cell _ | indexed _ _ | paren _ | postfixed _ _ => true
  | prefixed _ _ | binary _ _ _ => false

/-- The operators and functions at the right end that an operator after the expression could belong
to have this precedence or a higher one. -/
def rightPrecedence : Expression → Nat
  | prefixed f operand => min f.precedence operand.rightPrecedence
  | binary _ op right => min op.precedence right.rightPrecedence
  | number _ | cell _ | indexed _ _ | paren _ | postfixed _ _ => PostfixFn.factorial.precedence

/-- The tree is the one that its keys are read as where only operators above a level may join
operands: an operator has on its left what binds at least as tightly, on its right what binds more
tightly. Brackets hold any expression. -/
def IsReading (level : Nat) : Expression → Prop
  | number keys => (Literal.read keys).toOption.map Literal.width = some keys.length
  | cell _ => True
  | indexed _ index => index.IsReading 0
  | paren inner => inner.IsReading 0
  | prefixed f operand => operand.IsReading f.precedence
  | postfixed operand _ => operand.takesPostfixFn = true ∧ operand.IsReading level
  | binary left op right =>
    level < op.precedence ∧ op.precedence ≤ left.rightPrecedence ∧ left.IsReading level ∧
      right.IsReading op.precedence

instance decidableIsReading (level : Nat) : (e : Expression) → Decidable (e.IsReading level)
  | number _ => inferInstanceAs (Decidable (_ = _))
  | cell _ => .isTrue trivial
  | indexed _ index => decidableIsReading 0 index
  | paren inner => decidableIsReading 0 inner
  | prefixed f operand => decidableIsReading f.precedence operand
  | postfixed operand _ =>
    have := decidableIsReading level operand
    inferInstanceAs (Decidable (_ ∧ _))
  | binary left op right =>
    have := decidableIsReading level left
    have := decidableIsReading op.precedence right
    inferInstanceAs (Decidable (_ ∧ _ ∧ _ ∧ _))

end Expression
end PocketCalc
