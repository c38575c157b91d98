import PocketCalc.Token.Basic
import PocketCalc.Literal

/-! Cutting a line into tokens. A token is the longest that begins at its key: a number takes all
the digits and dots that follow, and a letter takes an opening bracket after it. Reading stops at
the end of the line and at a key that is no part of an expression, without taking that key. -/

namespace PocketCalc

/-- The token at the head of a row of keys and the number of keys in it, or the number of the key
that spoils a number there. -/
def TokenKind.read : List Key → Except Nat (TokenKind × Nat)
  | [] => .ok (.lineEnd, 0)
  | .openParen :: _ => .ok (.openParen, 1)
  | .closeParen :: _ => .ok (.closeParen, 1)
  | .closeBracket :: _ => .ok (.closeBracket, 1)
  | .operator op :: _ => .ok (.operator op, 1)
  | .prefixFn f :: _ => .ok (.prefixFn f, 1)
  | .postfixFn f :: _ => .ok (.postfixFn f, 1)
  | .letter name :: .openBracket :: _ => .ok (.indexed name, 2)
  | .letter name :: _ => .ok (.named name, 1)
  | .openBracket :: _ | .separator _ :: _ => .ok (.foreign, 0)
  | keys@(.digit _ :: _) | keys@(.dot :: _) =>
    (Literal.read keys).map fun literal => (.number literal.value, literal.width)

/-- A token that is read as a number is the literal there. -/
theorem TokenKind.literal_of_read {keys : List Key} {kind : TokenKind} {width : Nat}
    (h : (Literal.read keys).map (fun literal => (number literal.value, literal.width)) =
      .ok (kind, width)) :
    ∃ literal, Literal.read keys = .ok literal ∧ kind = .number literal.value ∧
      width = literal.width := by
  cases hliteral : Literal.read keys with
  | error index =>
      rw [hliteral] at h
      cases h
  | ok literal =>
      rw [hliteral] at h
      cases h
      exact ⟨literal, rfl, rfl, rfl⟩

/-- A token takes at least one key unless it is an end, and no more than there are. -/
theorem TokenKind.width_of_read {keys : List Key} {kind : TokenKind} {width : Nat}
    (h : TokenKind.read keys = .ok (kind, width)) :
    (kind.isEnd = false → 0 < width) ∧ width ≤ keys.length := by
  unfold TokenKind.read at h
  split at h
  case h_12 | h_13 =>
    obtain ⟨literal, hl, rfl, rfl⟩ := literal_of_read h
    have hw := Literal.width_of_read hl
    exact ⟨fun _ => hw.1, hw.2⟩
  all_goals
    cases h
    simp [isEnd]

/-- Where a row of tokens ends: before a key that cannot belong to it, or at a key that spoils a
number. -/
inductive Ending where
  | stop (offset : Nat)
  | malformed (offset : Nat)
  deriving DecidableEq, Repr

/-- The tokens of a row of keys, the first of which has the given offset. -/
def tokenize (offset : Nat) : List Key → List Token × Ending
  | [] => ([], .stop offset)
  | key :: rest =>
    match TokenKind.read (key :: rest) with
    | .error index => ([], .malformed (offset + index))
    | .ok (kind, width) =>
      if kind.isEnd then ([], .stop offset)
      else
        let (tokens, ending) := tokenize (offset + width) (rest.drop (width - 1))
        (⟨kind, offset⟩ :: tokens, ending)
termination_by keys => keys.length
decreasing_by simp only [List.length_drop, List.length_cons]; omega

/-- A line and the place in it from which the next token is read. -/
structure Lexer where
  line : Line
  offset : Nat := 0
  deriving DecidableEq, Repr

namespace Lexer

/-- The next token, and the lexer after it. Tokens that end an expression take no key, so they are
read again and again; beyond the line they have the offset of its end. -/
def next (lexer : Lexer) : Except Fault (Token × Lexer) :=
  match TokenKind.read (lexer.line.drop lexer.offset) with
  | .ok (kind, width) =>
    .ok (⟨kind, min lexer.offset lexer.line.length⟩, { lexer with offset := lexer.offset + width })
  | .error index => .error (.malformed .number (lexer.offset + index))

/-- The lexer one key back. -/
def rewind (lexer : Lexer) : Lexer := { lexer with offset := lexer.offset - 1 }

end Lexer
end PocketCalc
