import PocketCalc.Key.Label
import PocketCalc.Text.Blank

/-! Lines as text. The labels are written one after the other; a label that is a word has a blank on
each side, which keeps it apart from a letter or another word. -/

namespace PocketCalc

/-- The label consists of small letters only. -/
def Key.isWord (key : Key) : Bool := key.label.toList.all Char.isLower

/-- The label as it stands inside a line. -/
def Key.spaced (key : Key) : List Char :=
  if key.isWord then ' ' :: (key.label.toList ++ [' ']) else key.label.toList

namespace Line

/-- Two words that meet are two blanks apart. -/
def print (line : Line) : List Char := Text.trim (line.flatMap Key.spaced)

def text (line : Line) : String := String.ofList line.print

@[simp] theorem print_nil : print [] = [] := rfl

@[simp] theorem toList_text (line : Line) : line.text.toList = line.print :=
  String.toList_ofList

end Line
end PocketCalc
