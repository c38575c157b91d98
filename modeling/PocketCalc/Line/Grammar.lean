import PocketCalc.Text.Blank

/-! The grammar of typed texts. A text is a row of words, with blanks around them; where several
words fit, the one that the grammar names first counts. Places in a text are counted in bytes. -/

namespace PocketCalc

/-- The number of bytes that a text takes. -/
def Text.byteLength : List Char → Nat
  | [] => 0
  | c :: rest => c.utf8Size + byteLength rest

/-- The rules of the grammar. -/
inductive Rule where
  | line | entity | blank | keyword | digit | letter | symbol
  /-- The end of the text. -/
  | finish
  deriving DecidableEq, Repr

/-- A part of a text, the rule that it matches and the bytes that it takes, from `start` up to
`stop`. -/
structure Word where
  rule : Rule
  text : List Char
  start : Nat
  stop : Nat
  deriving DecidableEq, Repr

namespace Grammar

/-- Longer names go first: `sinh` must not match as `sin`. -/
def keywords : List (List Char) :=
  [ "asinh", "acosh", "atanh", "asin", "acos", "atan",
    "sinh", "cosh", "tanh", "sin", "cos", "tan",
    "sqrt", "cbrt", "pow10", "log", "ln", "exp",
    "abs", "int", "frac", "xrt",
    "hex", "dec", "bin", "oct", "neg", "not" ].map String.toList

def symbols : List (List Char) :=
  [ "->", "→", "⁻¹",
    "+", "-", "*", "×", "/", "÷", "^",
    "(", ")", "[", "]", ".",
    "√", "∛", "~", "²", "!", "°", "ʳ", "ᵍ", "'",
    ":", "," ].map String.toList

/-- The first of some literals that the text begins with. -/
def literal? (literals : List (List Char)) (text : List Char) : Option (List Char) :=
  literals.find? fun literal => literal.isPrefixOf text

/-- The character that the text begins with, if it is one of those accepted. -/
def character? (accepts : Char → Bool) (text : List Char) : Option (List Char) :=
  (text.head?.filter accepts).map fun c => [c]

/-- What the text begins with under a rule. Only four of the rules match words with a text. -/
def matched? (text : List Char) : Rule → Option (List Char)
  | .keyword => literal? keywords text
  | .digit => character? Char.isDigit text
  | .letter => character? Char.isUpper text
  | .symbol => literal? symbols text
  | .line | .entity | .blank | .finish => none

/-- The first rule under which the text begins with a word, and the text of the word. -/
def entity? (text : List Char) : Option (Rule × List Char) :=
  [Rule.keyword, .digit, .letter, .symbol].findSome? fun rule =>
    (matched? text rule).map fun word => (rule, word)

/-- The words of a text whose first byte has the given position, or the position at which no word
fits. The last word is the end of the text. -/
def words (position : Nat) : List Char → Except Nat (List Word)
  | [] => .ok [⟨.finish, [], position, position⟩]
  | c :: rest =>
    if Text.isBlank c then words (position + c.utf8Size) rest
    else
      match entity? (c :: rest) with
      | none => .error position
      | some (rule, word) =>
        let stop := position + Text.byteLength word
        (words stop (rest.drop (word.length - 1))).map (⟨rule, word, position, stop⟩ :: ·)
termination_by text => text.length
decreasing_by all_goals simp only [List.length_drop, List.length_cons]; omega

end Grammar
end PocketCalc
