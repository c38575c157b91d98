import PocketCalc.Key.Basic

/-! The text on each key, and the spellings that stand for a key in a typed text. Some keys have a
second spelling beside their label. -/

namespace PocketCalc

def Operator.label : Operator → String
  | .add => "+"
  | .subtract => "-"
  | .multiply => "*"
  | .divide => "/"
  | .power => "^"
  | .root => "xrt"

def Marker.label : Marker → String
  | .hexadecimal => "hex"
  | .decimal => "dec"
  | .binary => "bin"
  | .octal => "oct"
  | .negated => "neg"
  | .inverted => "not"

def PrefixFn.label : PrefixFn → String
  | .squareRoot => "sqrt"
  | .cubeRoot => "cbrt"
  | .log => "log"
  | .powerOfTen => "pow10"
  | .ln => "ln"
  | .exp => "exp"
  | .sin => "sin"
  | .cos => "cos"
  | .tan => "tan"
  | .sinh => "sinh"
  | .cosh => "cosh"
  | .tanh => "tanh"
  | .arcsin => "asin"
  | .arccos => "acos"
  | .arctan => "atan"
  | .arsinh => "asinh"
  | .arcosh => "acosh"
  | .artanh => "atanh"
  | .minus => "~"
  | .abs => "abs"
  | .integerPart => "int"
  | .fractionPart => "frac"
  | .marker m => m.label

def PostfixFn.label : PostfixFn → String
  | .square => "²"
  | .reciprocal => "⁻¹"
  | .factorial => "!"
  | .degrees => "°"
  | .radians => "ʳ"
  | .gradians => "ᵍ"
  | .degreeMark => "'"

def Separator.label : Separator → String
  | .colon => ":"
  | .comma => ","
  | .assign => "->"

namespace Key

def label : Key → String
  | digit n => n.repr
  | dot => "."
  | letter name => String.singleton name
  | openParen => "("
  | closeParen => ")"
  | openBracket => "["
  | closeBracket => "]"
  | operator op => op.label
  | prefixFn f => f.label
  | postfixFn f => f.label
  | separator s => s.label

/-- The spellings of all keys but digits and letters. The first one of a key is its label. -/
def spellings : List (List Char × Key) :=
  [ (".", dot), ("(", openParen), (")", closeParen), ("[", openBracket), ("]", closeBracket),
    ("+", operator .add), ("-", operator .subtract), ("*", operator .multiply),
    ("×", operator .multiply), ("/", operator .divide), ("÷", operator .divide),
    ("^", operator .power), ("xrt", operator .root),
    ("sqrt", prefixFn .squareRoot), ("√", prefixFn .squareRoot), ("cbrt", prefixFn .cubeRoot),
    ("∛", prefixFn .cubeRoot), ("log", prefixFn .log), ("pow10", prefixFn .powerOfTen),
    ("ln", prefixFn .ln), ("exp", prefixFn .exp),
    ("sin", prefixFn .sin), ("cos", prefixFn .cos), ("tan", prefixFn .tan),
    ("sinh", prefixFn .sinh), ("cosh", prefixFn .cosh), ("tanh", prefixFn .tanh),
    ("asin", prefixFn .arcsin), ("acos", prefixFn .arccos), ("atan", prefixFn .arctan),
    ("asinh", prefixFn .arsinh), ("acosh", prefixFn .arcosh), ("atanh", prefixFn .artanh),
    ("~", prefixFn .minus), ("abs", prefixFn .abs), ("int", prefixFn .integerPart),
    ("frac", prefixFn .fractionPart),
    ("hex", prefixFn (.marker .hexadecimal)), ("dec", prefixFn (.marker .decimal)),
    ("bin", prefixFn (.marker .binary)), ("oct", prefixFn (.marker .octal)),
    ("neg", prefixFn (.marker .negated)), ("not", prefixFn (.marker .inverted)),
    ("²", postfixFn .square), ("⁻¹", postfixFn .reciprocal), ("!", postfixFn .factorial),
    ("°", postfixFn .degrees), ("ʳ", postfixFn .radians), ("ᵍ", postfixFn .gradians),
    ("'", postfixFn .degreeMark),
    (":", separator .colon), (",", separator .comma), ("->", separator .assign),
    ("→", separator .assign) ].map fun (text, key) => (text.toList, key)

end Key
end PocketCalc
