/-! The keys of a pocket calculator, the classes they fall into, and how strongly each of them
binds its operands. A line is a row of keys, meaningful or not. -/

namespace PocketCalc

/-- A key that joins the operand before it to the operand after it. -/
inductive Operator where
  | add | subtract | multiply | divide | power
  /-- The degree comes first: `3` root `8` is `2`. -/
  | root
  deriving DecidableEq, Repr

/-- A way to display a number. Markers accompany an operand and leave its value alone. -/
inductive Marker where
  | hexadecimal | decimal | binary | octal | negated | inverted
  deriving DecidableEq, Repr

/-- A function that is written before its operand. -/
inductive PrefixFn where
  | squareRoot | cubeRoot | log | powerOfTen | ln | exp
  | sin | cos | tan | sinh | cosh | tanh
  | arcsin | arccos | arctan | arsinh | arcosh | artanh
  /-- The sign of an operand, a key apart from the operator that subtracts. -/
  | minus
  | abs | integerPart | fractionPart
  | marker (marker : Marker)
  deriving DecidableEq, Repr

/-- A function that is written after its operand. -/
inductive PostfixFn where
  | square | reciprocal | factorial
  /-- The operand is a number of degrees, whatever the current unit is. -/
  | degrees
  | radians | gradians
  /-- A mark that leaves its operand alone. -/
  | degreeMark
  deriving DecidableEq, Repr

/-- A key between statements, never a part of an expression. -/
inductive Separator where
  | colon | comma
  /-- Stores the value before it in the variable after it. -/
  | assign
  deriving DecidableEq, Repr

/-- One press of a key. Digits above nine and letters outside `A` to `Z` have no key cap, but a line
that was not typed in may hold them. -/
inductive Key where
  | digit (n : Nat)
  | dot
  | letter (name : Char)
  | openParen | closeParen | openBracket | closeBracket
  | operator (op : Operator)
  | prefixFn (f : PrefixFn)
  | postfixFn (f : PostfixFn)
  | separator (s : Separator)
  deriving DecidableEq, Repr

/-- The keys in the order in which they were pressed. -/
abbrev Line := List Key

def Operator.precedence : Operator → Nat
  | .add | .subtract => 1
  | .multiply | .divide => 2
  | .power | .root => 5

/-- A function waits for a power to its right, `~2^2` is `-4`, and is applied before a product or a
sum. A sign ranks below the other functions. -/
def PrefixFn.precedence : PrefixFn → Nat
  | .minus => 3
  | _ => 4

def PostfixFn.precedence (_ : PostfixFn) : Nat := 6

namespace Key

def isOperator : Key → Bool
  | operator _ => true
  | _ => false

def isPrefixFn : Key → Bool
  | prefixFn _ => true
  | _ => false

def isPostfixFn : Key → Bool
  | postfixFn _ => true
  | _ => false

def isDigit : Key → Bool
  | digit _ => true
  | _ => false

def isLetter : Key → Bool
  | letter _ => true
  | _ => false

/-- Numbers are made of such keys. -/
def isNumeric : Key → Bool
  | digit _ | dot => true
  | _ => false

/-- How strongly a key binds: of two, the one with the higher precedence is applied first. Keys that
are not applied have precedence zero. -/
def precedence : Key → Nat
  | operator op => op.precedence
  | prefixFn f => f.precedence
  | postfixFn f => f.precedence
  | _ => 0

def comparePrecedence (a b : Key) : Ordering := compare a.precedence b.precedence

def startsExpression (key : Key) : Bool :=
  key = openParen || key.isPrefixFn || key.isNumeric || key.isLetter

@[simp] theorem startsExpression_operator (op : Operator) :
    (operator op).startsExpression = false := rfl

@[simp] theorem startsExpression_postfixFn (f : PostfixFn) :
    (postfixFn f).startsExpression = false := rfl

end Key

theorem Operator.precedence_pos (op : Operator) : 0 < op.precedence := by
  cases op <;> decide

theorem PrefixFn.precedence_pos (f : PrefixFn) : 0 < f.precedence := by
  cases f <;> simp [precedence]

/-- No operator binds more tightly than a function written after its operand. -/
theorem Operator.precedence_lt_postfixFn (op : Operator) (f : PostfixFn) :
    op.precedence < f.precedence := by
  cases op <;> simp [precedence, PostfixFn.precedence]

theorem PrefixFn.precedence_lt_postfixFn (g : PrefixFn) (f : PostfixFn) :
    g.precedence < f.precedence := by
  cases g <;> simp [precedence, PostfixFn.precedence]

end PocketCalc
