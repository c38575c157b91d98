import PocketCalc.Key.Basic

/-! Tokens: the parts of an expression, each with the offset of its first key in the line, and the
pairs of them that may not follow each other. -/

namespace PocketCalc

inductive TokenKind where
  | number (value : Float)
  | named (name : Char)
  /-- A variable with the bracket that opens its index. -/
  | indexed (name : Char)
  | operator (op : Operator)
  | prefixFn (f : PrefixFn)
  | postfixFn (f : PostfixFn)
  | openParen | closeParen | closeBracket
  /-- There is no key left. -/
  | lineEnd
  /-- A key that is no part of an expression. -/
  | foreign
  deriving DecidableEq, Repr

structure Token where
  kind : TokenKind
  offset : Nat
  deriving DecidableEq, Repr

namespace TokenKind

def isNumber : TokenKind → Bool
  | number _ => true
  | _ => false

def isOperator : TokenKind → Bool
  | operator _ => true
  | _ => false

def isPrefixFn : TokenKind → Bool
  | prefixFn _ => true
  | _ => false

def isPostfixFn : TokenKind → Bool
  | postfixFn _ => true
  | _ => false

/-- An expression is over where such a token is read. -/
def isEnd : TokenKind → Bool
  | lineEnd | foreign => true
  | _ => false

/-- The key of an operator or a function. -/
def key? : TokenKind → Option Key
  | operator op => some (.operator op)
  | prefixFn f => some (.prefixFn f)
  | postfixFn f => some (.postfixFn f)
  | _ => none

/-- An operand has to come next. -/
def awaitsOperand : TokenKind → Bool
  | operator _ | prefixFn _ | openParen | indexed _ => true
  | _ => false

/-- An operand has to come before. -/
def needsOperand : TokenKind → Bool
  | operator _ | postfixFn _ | closeParen | closeBracket | lineEnd | foreign => true
  | _ => false

/-- An operand ends here that no number may continue. -/
def refusesNumber : TokenKind → Bool
  | postfixFn _ | closeParen | named _ => true
  | _ => false

def mayFollow (current previous : TokenKind) : Bool :=
  !(previous.awaitsOperand && current.needsOperand) && !(previous.refusesNumber && current.isNumber)

theorem needsOperand_of_isEnd {kind : TokenKind} (h : kind.isEnd = true) :
    kind.needsOperand = true := by
  cases kind <;> simp_all [isEnd, needsOperand]

end TokenKind
end PocketCalc
