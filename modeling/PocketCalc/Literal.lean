import PocketCalc.Key.Basic
import PocketCalc.Binary64.Nearest
import PocketCalc.Fault

/-! Number literals: a row of digits with one dot among them at most. A literal stands for the
binary64 number nearest to the decimal that it spells, whatever its length. -/

namespace PocketCalc

/-- A literal, or the part of one read so far: `mantissa / 10^places`, spelled in `width` keys. -/
structure Literal where
  mantissa : Nat := 0
  places : Nat := 0
  width : Nat := 0
  dotted : Bool := false
  deriving DecidableEq, Repr

namespace Literal

def appendDigit (literal : Literal) (n : Nat) : Literal where
  mantissa := 10 * literal.mantissa + n
  places := if literal.dotted then literal.places + 1 else literal.places
  width := literal.width + 1
  dotted := literal.dotted

def appendDot (literal : Literal) : Literal :=
  { literal with width := literal.width + 1, dotted := true }

/-- A dot alone is no literal. -/
def hasDigit (literal : Literal) : Bool := literal.dotted.toNat < literal.width

def value (literal : Literal) : Float :=
  Binary64.nearest literal.mantissa (Nat.pow 10 literal.places)

/-- Reads on to the end of a row of digits and dots. Fails with the number of the first key that no
literal can hold at its place: a digit above nine or a second dot. -/
def extend (literal : Literal) : List Key → Except Nat Literal
  | .digit n :: rest =>
    if n ≤ 9 then (literal.appendDigit n).extend rest else .error literal.width
  | .dot :: rest =>
    if literal.dotted then .error literal.width else literal.appendDot.extend rest
  | _ => .ok literal

/-- The literal at the head of a row of keys, or the number of the key that spoils it. -/
def read (keys : List Key) : Except Nat Literal :=
  match extend {} keys with
  | .ok literal => if literal.hasDigit then .ok literal else .error 0
  | .error index => .error index

theorem width_of_extend {literal result : Literal} {keys : List Key}
    (h : literal.extend keys = .ok result) :
    literal.width ≤ result.width ∧ result.width ≤ literal.width + keys.length := by
  fun_induction extend literal keys with
  | case1 literal n rest _ ih =>
      have hw := ih h
      simp only [appendDigit, List.length_cons] at hw ⊢
      omega
  | case2 => cases h
  | case3 => cases h
  | case4 literal rest _ ih =>
      have hw := ih h
      simp only [appendDot, List.length_cons] at hw ⊢
      omega
  | case5 => cases h; omega

/-- A literal takes at least one key, and no more than there are. -/
theorem width_of_read {literal : Literal} {keys : List Key} (h : read keys = .ok literal) :
    0 < literal.width ∧ literal.width ≤ keys.length := by
  unfold read at h
  split at h
  · rename_i found hf
    split at h
    · rename_i hd
      cases h
      have hw := width_of_extend hf
      simp only [hasDigit, decide_eq_true_eq] at hd
      simp only [Nat.zero_add] at hw
      omega
    · cases h
  · cases h

end Literal

/-- The number at an offset in a line and the offset after it. Where no number begins, it is zero
and takes no key. -/
def Line.numberAt (line : Line) (offset : Nat) : Except Fault (Float × Nat) :=
  match line.drop offset with
  | [] => .ok (0.0, offset)
  | key :: rest =>
    if key.isNumeric then
      match Literal.read (key :: rest) with
      | .ok literal => .ok (literal.value, offset + literal.width)
      | .error index => .error (.malformed .number (offset + index))
    else .ok (0.0, offset)

end PocketCalc
