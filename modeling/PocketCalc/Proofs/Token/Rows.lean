import PocketCalc.Token.Lexer

/-! Tokens of rows that are put together. A row may be cut where the key after the cut extends no
token: the tokens before the cut do not depend on what follows it. Where the first part ends early,
the second part is never read. -/

namespace PocketCalc

/-- A token that ends right before such a key may take it as well. -/
def Key.extendsToken : Key → Bool
  | .digit _ | .dot | .openBracket => true
  | _ => false

/-- The row begins with a key that belongs to no token before it, or is empty. -/
def StartsAfresh (keys : List Key) : Prop :=
  ∀ key ∈ keys.head?, key.extendsToken = false

theorem startsAfresh_cons {key : Key} {rest : List Key} :
    StartsAfresh (key :: rest) ↔ key.extendsToken = false := by
  simp [StartsAfresh]

namespace Literal

theorem extend_of_startsAfresh {rest : List Key} (h : StartsAfresh rest) (literal : Literal) :
    literal.extend rest = .ok literal := by
  cases rest with
  | nil => rfl
  | cons key rest =>
      have hk := startsAfresh_cons.mp h
      cases key with
      | digit | dot | openBracket => cases hk
      | _ => rfl

theorem extend_append {rest : List Key} (h : StartsAfresh rest) (literal : Literal)
    (keys : List Key) : literal.extend (keys ++ rest) = literal.extend keys := by
  fun_induction extend literal keys with
  | case1 literal n keys hn ih => simp only [List.cons_append, extend, hn, if_true, ih]
  | case2 literal n keys hn => simp only [List.cons_append, extend, hn, if_false]
  | case3 literal keys hd => simp only [List.cons_append, extend, hd, if_true]
  | case4 literal keys hd ih =>
      simp only [List.cons_append, extend, hd, Bool.false_eq_true, if_false, ih]
  | case5 keys literal hdigit hdot =>
      cases keys with
      | nil => exact extend_of_startsAfresh h literal
      | cons key keys =>
          cases key with
          | digit n => exact (hdigit n keys rfl).elim
          | dot => exact (hdot keys rfl).elim
          | _ => rfl

theorem read_append {rest : List Key} (h : StartsAfresh rest) (keys : List Key) :
    read (keys ++ rest) = read keys := by
  simp only [read, extend_append h]

end Literal

/-- What follows a row does not change its first token. -/
theorem TokenKind.read_append {rest : List Key} (h : StartsAfresh rest) (key : Key)
    (keys : List Key) : TokenKind.read (key :: keys ++ rest) = TokenKind.read (key :: keys) := by
  cases key with
  | letter name =>
      cases keys with
      | nil =>
          cases rest with
          | nil => rfl
          | cons next rest =>
              have hn := startsAfresh_cons.mp h
              cases next with
              | openBracket => cases hn
              | _ => rfl
      | cons next keys => cases next <;> rfl
  | digit n =>
      have hl := Literal.read_append h (.digit n :: keys)
      simp only [List.cons_append] at hl
      simp only [List.cons_append, TokenKind.read, hl]
  | dot =>
      have hl := Literal.read_append h (.dot :: keys)
      simp only [List.cons_append] at hl
      simp only [List.cons_append, TokenKind.read, hl]
  | _ => rfl

theorem tokenize_nil (start : Nat) : tokenize start [] = ([], .stop start) := by
  rw [tokenize]

theorem tokenize_of_error {start index : Nat} {key : Key} {keys : List Key}
    (h : TokenKind.read (key :: keys) = .error index) :
    tokenize start (key :: keys) = ([], .malformed (start + index)) := by
  rw [tokenize, h]

theorem tokenize_of_isEnd (kind : TokenKind) (width : Nat) {start : Nat} {key : Key}
    {keys : List Key}
    (h : TokenKind.read (key :: keys) = .ok (kind, width)) (he : kind.isEnd = true) :
    tokenize start (key :: keys) = ([], .stop start) := by
  rw [tokenize, h]
  simp only [he, if_true]

theorem tokenize_of_read (kind : TokenKind) (width : Nat) {start : Nat} {key : Key}
    {keys : List Key}
    (h : TokenKind.read (key :: keys) = .ok (kind, width)) (he : kind.isEnd = false) :
    tokenize start (key :: keys) =
      (⟨kind, start⟩ :: (tokenize (start + width) (keys.drop (width - 1))).1,
        (tokenize (start + width) (keys.drop (width - 1))).2) := by
  rw [tokenize, h]
  simp only [he, Bool.false_eq_true, if_false]

/-- The tokens of two rows in sequence. Only a first row that is read to its end lets the second one
have a say. -/
theorem tokenize_append {rest : List Key} (h : StartsAfresh rest) (start : Nat)
    (keys : List Key) :
    tokenize start (keys ++ rest) =
      if (tokenize start keys).2 = .stop (start + keys.length) then
        ((tokenize start keys).1 ++ (tokenize (start + keys.length) rest).1,
          (tokenize (start + keys.length) rest).2)
      else tokenize start keys := by
  fun_induction tokenize start keys with
  | case1 start => simp
  | case2 start key keys index hr =>
      have hr' := (TokenKind.read_append h key keys).trans hr
      simp only [List.cons_append] at hr' ⊢
      rw [tokenize_of_error hr']
      simp
  | case3 start key keys kind width hr he =>
      have hr' := (TokenKind.read_append h key keys).trans hr
      simp only [List.cons_append] at hr' ⊢
      rw [tokenize_of_isEnd kind width hr' he]
      simp
  | case4 start key keys kind width hr he tokens ending ht ih =>
      have hr' := (TokenKind.read_append h key keys).trans hr
      have hw := TokenKind.width_of_read hr
      simp only [Bool.not_eq_true] at he
      have hpos := hw.1 he
      have hle : width - 1 ≤ keys.length := by
        have := hw.2
        simp only [List.length_cons] at this
        omega
      have hlength : start + width + (keys.drop (width - 1)).length =
          start + (key :: keys).length := by
        simp only [List.length_drop, List.length_cons]
        omega
      simp only [List.cons_append] at hr' ⊢
      rw [tokenize_of_read kind width hr' he, List.drop_append_of_le_length hle, ih, hlength, ht]
      split <;> rfl

/-- A separator ends a row as its end does. -/
theorem tokenize_append_separator (start : Nat) (keys : List Key) (s : Separator)
    (rest : List Key) : tokenize start (keys ++ .separator s :: rest) = tokenize start keys := by
  rw [tokenize_append (startsAfresh_cons.mpr rfl),
    tokenize_of_isEnd .foreign 0 rfl rfl]
  split
  · rename_i h
    exact Prod.ext (List.append_nil _) h.symm
  · rfl

end PocketCalc
