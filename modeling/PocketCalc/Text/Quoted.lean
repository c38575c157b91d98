import PocketCalc.Text.Printable

/-! Texts in double quotes. A character that would end the text or could not be told from its
surroundings is written as an escape. -/

namespace PocketCalc.Text

/-- The code point of a character in lower-case hexadecimal digits, as few as there are. -/
def codePointEscape (c : Char) : List Char :=
  "\\u\x7b".toList ++ Nat.toDigits 16 c.toNat ++ "\x7d".toList

def escape (c : Char) : List Char :=
  match c with
  | '\x00' => ['\\', '0']
  | '\t' => ['\\', 't']
  | '\n' => ['\\', 'n']
  | '\r' => ['\\', 'r']
  | '\\' => ['\\', '\\']
  | '"' => ['\\', '"']
  | c => if isPrintable c then [c] else codePointEscape c

def quoted (text : String) : String :=
  String.ofList ('"' :: text.toList.flatMap escape ++ ['"'])

end PocketCalc.Text
