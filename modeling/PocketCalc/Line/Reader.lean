import PocketCalc.Key.Label
import PocketCalc.Line.Grammar

/-! Reading a typed text as a line. Each word of the text stands for a key. A place where no word
fits makes the text unreadable; so does a blank inside a number, unless there is such a place
anywhere. -/

namespace PocketCalc

/-- Why a text is not a line. -/
inductive TextFault where
  | unknownSymbol (position : Nat)
  /-- The position is the end of the first part of the number. -/
  | splitNumber (position : Nat)
  | invalidDigit (word : String)
  | emptyName
  /-- A keyword or a symbol that no key is known by. -/
  | unlabelled (word : String)
  /-- A word of a rule that matches no words of its own. -/
  | unexpected (word : String)
  deriving DecidableEq, Repr

def TextFault.reason : TextFault → String
  | .unknownSymbol position => s!"unexpected symbol at {position}"
  | .splitNumber position => s!"space inside a number at {position}"
  | .invalidDigit word => s!"invalid digit '{word}'"
  | .emptyName => "empty variable name"
  | .unlabelled word => s!"unknown symbol '{word}'"
  | .unexpected word => s!"unexpected '{word}'"

namespace Word

/-- Numbers are made of such words. -/
def isNumeric (word : Word) : Bool :=
  word.rule = .digit || word.rule = .symbol && word.text = ['.']

/-- The key that the word stands for. The end of the text stands for none. -/
def key? (word : Word) : Except TextFault (Option Key) :=
  match word.rule with
  | .digit =>
    match word.text.head?.filter Char.isDigit with
    | some c => .ok (some (.digit (c.toNat - '0'.toNat)))
    | none => .error (.invalidDigit (String.ofList word.text))
  | .letter =>
    match word.text.head? with
    | some c => .ok (some (.letter c))
    | none => .error .emptyName
  | .keyword | .symbol =>
    match Key.spellings.lookup word.text with
    | some key => .ok (some key)
    | none => .error (.unlabelled (String.ofList word.text))
  | .finish => .ok none
  | .line | .entity | .blank => .error (.unexpected (String.ofList word.text))

/-- The end of the number that is being read, if the word goes on with it behind a blank. -/
def splitEnd? (word : Word) (numberEnd : Option Nat) : Option Nat :=
  numberEnd.filter fun stop => word.isNumeric && stop != word.start

end Word

namespace Line

/-- The keys that the words stand for. `numberEnd` is the end of the last digit or dot while a
number is being read. -/
def readWords (numberEnd : Option Nat) : List Word → Except TextFault Line
  | [] => .ok []
  | word :: rest =>
    match word.splitEnd? numberEnd with
    | some stop => .error (.splitNumber stop)
    | none => do
      let key? ← word.key?
      let line ← readWords (if word.isNumeric then some word.stop else none) rest
      return key?.toList ++ line

def read (text : List Char) : Except TextFault Line :=
  match Grammar.words 0 text with
  | .error position => .error (.unknownSymbol position)
  | .ok words => readWords none words

/-- The line that a text spells. -/
def ofText (text : String) : Except TextFault Line := read text.toList

end Line
end PocketCalc
