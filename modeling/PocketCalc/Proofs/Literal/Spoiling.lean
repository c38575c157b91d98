import PocketCalc.Proofs.Literal.Shape
import PocketCalc.Token.Lexer

/-! Why a number cannot be read: a digit above nine, a second dot, or a dot without a digit, and
nothing else. -/

namespace PocketCalc

/-- The key with this number spoils the literal that begins with the first of the keys. -/
inductive SpoilsLiteral : List Key → Nat → Prop where
  | digitAboveNine {taken rest : List Key} {n : Nat} (htaken : ∀ key ∈ taken, key.IsLiteralKey)
      (hn : 9 < n) : SpoilsLiteral (taken ++ .digit n :: rest) taken.length
  | secondDot {taken rest : List Key} (htaken : ∀ key ∈ taken, key.IsLiteralKey)
      (hdot : .dot ∈ taken) : SpoilsLiteral (taken ++ .dot :: rest) taken.length
  | loneDot {rest : List Key} (hrest : ∀ key ∈ rest.head?, key.isNumeric = false) :
      SpoilsLiteral (.dot :: rest) 0

theorem SpoilsLiteral.lt_length {keys : List Key} {index : Nat} (h : SpoilsLiteral keys index) :
    index < keys.length := by
  cases h <;> simp

namespace Literal

/-- Reading on fails at the first key that has no place behind the ones before it. -/
theorem extend_eq_error {literal : Literal} {keys : List Key} {index : Nat}
    (h : literal.extend keys = .error index) :
    ∃ taken key rest, keys = taken ++ key :: rest ∧ index = literal.width + taken.length ∧
      (∀ other ∈ taken, other.IsLiteralKey) ∧ literal.dotted.toNat + taken.count .dot ≤ 1 ∧
      ((∃ n, 9 < n ∧ key = .digit n) ∨
        key = .dot ∧ (literal.dotted = true ∨ .dot ∈ taken)) := by
  fun_induction extend literal keys with
  | case1 literal n keys hn ih =>
      obtain ⟨taken, key, rest, rfl, hindex, htaken, hdots, hkey⟩ := ih h
      refine ⟨.digit n :: taken, key, rest, rfl, ?_, ?_, ?_, ?_⟩
      · simp only [hindex, appendDigit, List.length_cons]
        omega
      · simpa [Key.isLiteralKey_digit, hn] using htaken
      · simpa [appendDigit] using hdots
      · simpa [appendDigit] using hkey
  | case2 literal n keys hn =>
      cases h
      exact ⟨[], .digit n, keys, rfl, rfl, by simp, Bool.toNat_le _,
        .inl ⟨n, Nat.lt_of_not_le hn, rfl⟩⟩
  | case3 literal keys hd =>
      cases h
      exact ⟨[], .dot, keys, rfl, rfl, by simp, Bool.toNat_le _, .inr ⟨rfl, .inl hd⟩⟩
  | case4 literal keys hd ih =>
      obtain ⟨taken, key, rest, rfl, hindex, htaken, hdots, hkey⟩ := ih h
      refine ⟨.dot :: taken, key, rest, rfl, ?_, ?_, ?_, ?_⟩
      · simp only [hindex, appendDot, List.length_cons]
        omega
      · simpa [Key.isLiteralKey_dot] using htaken
      · simp only [Bool.not_eq_true] at hd
        simp only [appendDot, Bool.toNat_true] at hdots
        simp only [hd, Bool.toNat_false, List.count_cons_self]
        omega
      · exact hkey.imp_right fun hdot => ⟨hdot.1, .inr List.mem_cons_self⟩
  | case5 => cases h

/-- The keys that are no dots become no fewer. -/
theorem width_sub_dotted_of_extend {literal result : Literal} {keys : List Key}
    (h : literal.extend keys = .ok result) :
    literal.width + result.dotted.toNat ≤ result.width + literal.dotted.toNat := by
  fun_induction extend literal keys with
  | case1 literal n keys hn ih =>
      have hrest := ih h
      simp only [appendDigit] at hrest
      omega
  | case2 => cases h
  | case3 => cases h
  | case4 literal keys hd ih =>
      have hrest := ih h
      simp only [appendDot, Bool.toNat_true] at hrest
      omega
  | case5 => cases h; omega

/-- A literal without a digit is a lone dot. -/
theorem loneDot_of_extend {literal : Literal} {key : Key} {rest : List Key}
    (hkey : key.isNumeric = true) (h : extend {} (key :: rest) = .ok literal)
    (hdigit : literal.hasDigit = false) :
    key = .dot ∧ ∀ next ∈ rest.head?, next.isNumeric = false := by
  have hwidth : literal.width ≤ literal.dotted.toNat := by simpa [hasDigit] using hdigit
  cases key with
  | digit n =>
      by_cases hn : n ≤ 9
      · simp only [extend, hn, if_true] at h
        have hmore := width_sub_dotted_of_extend h
        simp only [appendDigit, Bool.toNat_false] at hmore
        omega
      · simp only [extend, hn, if_false] at h
        cases h
  | dot =>
      refine ⟨rfl, fun next hnext => ?_⟩
      obtain ⟨behind, rfl⟩ := List.head?_eq_some_iff.mp hnext
      simp only [extend, Bool.false_eq_true, if_false] at h
      cases next with
      | digit n =>
          by_cases hn : n ≤ 9
          · simp only [extend, hn, if_true] at h
            have hmore := width_sub_dotted_of_extend h
            simp only [appendDot, appendDigit, Bool.toNat_true] at hmore
            omega
          · simp only [extend, hn, if_false] at h
            cases h
      | dot =>
          simp only [extend, appendDot, if_true] at h
          cases h
      | _ => rfl
  | _ => cases hkey

/-- Where a literal begins that cannot be read, the key told is the one that spoils it. -/
theorem spoils_of_read {key : Key} {rest : List Key} {index : Nat} (hkey : key.isNumeric = true)
    (h : read (key :: rest) = .error index) : SpoilsLiteral (key :: rest) index := by
  unfold read at h
  cases he : extend {} (key :: rest) with
  | ok literal =>
      by_cases hd : literal.hasDigit = true
      · simp only [he, hd, if_true] at h
        cases h
      · simp only [Bool.not_eq_true] at hd
        simp only [he, hd, Bool.false_eq_true, if_false] at h
        cases h
        obtain ⟨rfl, hrest⟩ := loneDot_of_extend hkey he hd
        exact .loneDot hrest
  | error position =>
      simp only [he] at h
      cases h
      obtain ⟨taken, spoiler, behind, hkeys, rfl, htaken, _, hspoiler⟩ := extend_eq_error he
      rw [hkeys, Nat.zero_add]
      obtain ⟨n, hn, rfl⟩ | ⟨rfl, hdotted | hdot⟩ := hspoiler
      · exact .digitAboveNine htaken hn
      · cases hdotted
      · exact .secondDot htaken hdot

end Literal

/-- A token cannot be read only where a literal is spoiled. -/
theorem TokenKind.spoils_of_read {keys : List Key} {index : Nat}
    (h : TokenKind.read keys = .error index) :
    (∀ key ∈ keys.head?, key.isNumeric = true) ∧ Literal.read keys = .error index ∧
      SpoilsLiteral keys index := by
  unfold TokenKind.read at h
  split at h
  case h_12 n rest | h_13 rest =>
    cases hl : Literal.read _ with
    | ok literal =>
        rw [hl] at h
        cases h
    | error position =>
        rw [hl] at h
        cases h
        exact ⟨by rintro key ⟨⟩; rfl, rfl, Literal.spoils_of_read rfl hl⟩
  all_goals cases h

end PocketCalc
