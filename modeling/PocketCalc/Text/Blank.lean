/-! Blank characters. Between the keys of a typed text only spaces and tabs are blank; the ends of a
printed line are trimmed of every character that Unicode calls white space. -/

namespace PocketCalc.Text

def isBlank (c : Char) : Bool := c = ' ' || c = '\t'

/-- The code points with the Unicode property `White_Space`, as ranges with both ends included. -/
def whiteSpaceRanges : List (Nat × Nat) :=
  [(0x9, 0xD), (0x20, 0x20), (0x85, 0x85), (0xA0, 0xA0), (0x1680, 0x1680), (0x2000, 0x200A),
    (0x2028, 0x2029), (0x202F, 0x202F), (0x205F, 0x205F), (0x3000, 0x3000)]

def isWhiteSpace (c : Char) : Bool :=
  whiteSpaceRanges.any fun (first, last) => first ≤ c.toNat && c.toNat ≤ last

def trimLeft (text : List Char) : List Char := text.dropWhile isWhiteSpace

/-- Drops the white space at the end of a text. -/
def trimRight : List Char → List Char
  | [] => []
  | c :: rest =>
    match trimRight rest with
    | [] => if isWhiteSpace c then [] else [c]
    | kept => c :: kept

def trim (text : List Char) : List Char := trimRight (trimLeft text)

theorem isWhiteSpace_of_isBlank {c : Char} (h : isBlank c = true) : isWhiteSpace c = true := by
  simp only [isBlank, Bool.or_eq_true, decide_eq_true_eq] at h
  rcases h with rfl | rfl <;> decide

theorem trimRight_append_of_isWhiteSpace (text : List Char) {c : Char}
    (h : isWhiteSpace c = true) : trimRight (text ++ [c]) = trimRight text := by
  induction text with
  | nil => simp [trimRight, h]
  | cons d text ih => simp only [List.cons_append, trimRight, ih]

/-- A text that ends in a character other than white space keeps its end. -/
theorem trimRight_append_of_not_isWhiteSpace (text : List Char) {c : Char}
    (h : isWhiteSpace c = false) : trimRight (text ++ [c]) = text ++ [c] := by
  induction text with
  | nil => simp [trimRight, h]
  | cons d text ih =>
      simp only [List.cons_append, trimRight, ih]
      cases text <;> rfl

end PocketCalc.Text
