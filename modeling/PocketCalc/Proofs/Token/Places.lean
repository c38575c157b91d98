import PocketCalc.Token.Lexer

/-! Where tokens stand in a line. A token is read at the key with its offset, and unless it is a
number it is made of the same keys everywhere. -/

namespace PocketCalc

/-- The keys that make up a token other than a number. -/
def TokenKind.ownKeys : TokenKind → List Key
  | named name => [.letter name]
  | indexed name => [.letter name, .openBracket]
  | operator op => [.operator op]
  | prefixFn f => [.prefixFn f]
  | postfixFn f => [.postfixFn f]
  | openParen => [.openParen]
  | closeParen => [.closeParen]
  | closeBracket => [.closeBracket]
  | number _ | lineEnd | foreign => []

theorem TokenKind.ownKeys_of_read {keys : List Key} {kind : TokenKind} {width : Nat}
    (h : TokenKind.read keys = .ok (kind, width)) : kind.ownKeys <+: keys := by
  unfold TokenKind.read at h
  split at h
  case h_12 | h_13 =>
    obtain ⟨literal, _, rfl, rfl⟩ := literal_of_read h
    exact List.nil_prefix
  all_goals
    cases h
    simp [ownKeys]

/-- Each token is read at its offset, and none of them is an end. -/
theorem read_of_mem_tokenize {start : Nat} {keys : List Key} {token : Token}
    (h : token ∈ (tokenize start keys).1) :
    token.kind.isEnd = false ∧ start ≤ token.offset ∧
      ∃ width, TokenKind.read (keys.drop (token.offset - start)) = .ok (token.kind, width) := by
  fun_induction tokenize start keys with
  | case1 | case2 | case3 => cases h
  | case4 start key rest kind width hread hend tokens ending heq ih =>
      simp only [Bool.not_eq_true] at hend
      have hpos := (TokenKind.width_of_read hread).1 hend
      rw [heq] at ih
      rcases List.mem_cons.mp h with rfl | h
      · refine ⟨hend, Nat.le_refl _, width, ?_⟩
        rwa [Nat.sub_self, List.drop_zero]
      · obtain ⟨hkind, hlow, next, hnext⟩ := ih h
        refine ⟨hkind, by omega, next, ?_⟩
        rw [← hnext, List.drop_drop, List.drop_cons (by omega)]
        congr 2
        omega

/-- The keys of a token stand in the line from its offset on. -/
theorem getElem?_of_mem_tokenize {keys : Line} {start : Nat} {token : Token}
    (h : token ∈ (tokenize start (keys.drop start)).1) (i : Nat) {key : Key}
    (hkey : token.kind.ownKeys[i]? = some key) : keys[token.offset + i]? = some key := by
  obtain ⟨_, hlow, width, hread⟩ := read_of_mem_tokenize h
  rw [List.drop_drop, Nat.add_sub_cancel' hlow] at hread
  obtain ⟨rest, hrest⟩ := TokenKind.ownKeys_of_read hread
  have hlt := (List.getElem?_eq_some_iff.mp hkey).1
  rw [← List.getElem?_drop, ← hrest, List.getElem?_append_left hlt, hkey]

end PocketCalc
