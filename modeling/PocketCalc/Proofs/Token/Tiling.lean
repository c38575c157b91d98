import PocketCalc.Proofs.Literal.Number
import PocketCalc.Proofs.Token.Places
import PocketCalc.Proofs.Token.Rows

/-! Reading a line token by token. The tokens lie side by side from the first offset on: none is
empty, none overlaps the next, and no key is left out between two of them. They end where the cursor
stays, at an end that is read again and again, or before a number that cannot be read. -/

namespace PocketCalc

/-- The token takes so many keys of the line, from its offset on. A number takes all the digits and
dots in a row, an end takes none. -/
inductive Token.Spans (keys : Line) : Token → Nat → Prop where
  | number {literal : Literal} {offset : Nat}
      (h : Literal.read (keys.numericRun offset) = .ok literal) :
      Spans keys ⟨.number literal.value, offset⟩ (keys.numericRun offset).length
  | own {kind : TokenKind} {offset : Nat} (hnumber : kind.isNumber = false)
      (h : kind.ownKeys <+: keys.drop offset) : Spans keys ⟨kind, offset⟩ kind.ownKeys.length

/-- The tokens lie side by side between the two offsets. -/
inductive Tiles (keys : Line) : Nat → List Token → Nat → Prop where
  | nil (offset : Nat) : Tiles keys offset [] offset
  | cons {kind : TokenKind} {offset width stop : Nat} {rest : List Token} (hpos : 0 < width)
      (hspan : Token.Spans keys ⟨kind, offset⟩ width)
      (hrest : Tiles keys (offset + width) rest stop) :
      Tiles keys offset (⟨kind, offset⟩ :: rest) stop

variable {keys : Line} {start stop : Nat} {tokens : List Token} {token : Token}

/-- No token is empty, so there are no more of them than keys. -/
theorem Tiles.add_length_le (h : Tiles keys start tokens stop) : start + tokens.length ≤ stop := by
  induction h with
  | nil => exact Nat.le_refl _
  | cons hpos _ _ ih =>
      rw [List.length_cons]
      omega

/-- What is read at the head of the keys from an offset on is a token that lies there. -/
theorem TokenKind.spans_of_read {kind : TokenKind} {offset width : Nat}
    (h : TokenKind.read (keys.drop offset) = .ok (kind, width)) :
    Token.Spans keys ⟨kind, offset⟩ width := by
  have hown := TokenKind.ownKeys_of_read h
  generalize hrow : keys.drop offset = row at h hown
  unfold TokenKind.read at h
  split at h
  case h_12 | h_13 =>
    obtain ⟨literal, hread, rfl, rfl⟩ := literal_of_read h
    rw [← hrow, ← Literal.read_takeWhile] at hread
    rw [Literal.width_of_read_numeric Line.isNumeric_of_mem_numericRun hread]
    exact .number hread
  all_goals
    cases h
    rw [← hrow] at hown
    exact .own rfl hown

/-- A letter that is a token alone has no opening bracket behind it. -/
theorem TokenKind.getElem?_of_read_named {row : List Key} {name : Char} {width : Nat}
    (h : TokenKind.read row = .ok (.named name, width)) : row[1]? ≠ some .openBracket := by
  unfold TokenKind.read at h
  split at h
  case h_9 rest hbracket =>
    cases rest with
    | nil => simp
    | cons key rest =>
        intro hkey
        obtain rfl : key = .openBracket := by simpa using hkey
        exact hbracket rest rfl
  case h_12 | h_13 =>
    obtain ⟨_, _, hkind, _⟩ := literal_of_read h
    cases hkind
  all_goals cases h

/-- An end takes no key. -/
theorem TokenKind.width_of_isEnd {row : List Key} {kind : TokenKind} {width : Nat}
    (h : TokenKind.read row = .ok (kind, width)) (hend : kind.isEnd = true) : width = 0 := by
  unfold TokenKind.read at h
  split at h
  case h_12 | h_13 =>
    obtain ⟨_, _, rfl, _⟩ := literal_of_read h
    cases hend
  all_goals
    cases h
    first
    | rfl
    | cases hend

namespace Lexer

variable {lexer next last : Lexer}

/-- A token that is read stands at the cursor, which goes past it. Beyond the line, its end is
read. -/
theorem next_eq_ok (h : lexer.next = .ok (token, next)) :
    ∃ width, TokenKind.read (lexer.line.drop lexer.offset) = .ok (token.kind, width) ∧
      token.offset = min lexer.offset lexer.line.length ∧
      next = { lexer with offset := lexer.offset + width } := by
  unfold Lexer.next at h
  split at h
  · next kind width hread =>
      cases h
      exact ⟨width, hread, rfl, rfl⟩
  · cases h

/-- An end leaves the cursor where it is. -/
theorem next_of_isEnd (h : lexer.next = .ok (token, next)) (hend : token.kind.isEnd = true) :
    next = lexer := by
  obtain ⟨width, hread, _, rfl⟩ := next_eq_ok h
  rw [TokenKind.width_of_isEnd hread hend]
  rfl

/-- Any other token takes a key at least, and no more than there are. -/
theorem next_of_not_isEnd (h : lexer.next = .ok (token, next)) (hend : token.kind.isEnd = false) :
    ∃ width, TokenKind.read (lexer.line.drop lexer.offset) = .ok (token.kind, width) ∧
      0 < width ∧ lexer.offset + width ≤ lexer.line.length ∧ token = ⟨token.kind, lexer.offset⟩ ∧
      next = { lexer with offset := lexer.offset + width } := by
  obtain ⟨width, hread, hoffset, hnext⟩ := next_eq_ok h
  obtain ⟨hpos, hle⟩ := TokenKind.width_of_read hread
  have hwidth := hpos hend
  rw [List.length_drop] at hle
  refine ⟨width, hread, hwidth, by omega, ?_, hnext⟩
  rw [Nat.min_eq_left (by omega)] at hoffset
  rw [← hoffset]

/-- Reading one token after the other gives the tokens, none of them an end. -/
inductive Reads : Lexer → List Token → Lexer → Prop where
  | nil (lexer : Lexer) : Reads lexer [] lexer
  | cons {lexer next last : Lexer} {token : Token} {rest : List Token}
      (h : lexer.next = .ok (token, next)) (hend : token.kind.isEnd = false)
      (hrest : Reads next rest last) : Reads lexer (token :: rest) last

/-- No token can be read, or an end is read that leaves the lexer as it is. -/
def AtEnd (lexer : Lexer) : Prop :=
  (∃ fault, lexer.next = .error fault) ∨
    ∃ token, token.kind.isEnd = true ∧ lexer.next = .ok (token, lexer)

/-- The first token of the keys ahead is the one that is read next. -/
theorem tokenize_of_next (h : lexer.next = .ok (token, next)) (hend : token.kind.isEnd = false) :
    tokenize lexer.offset (lexer.line.drop lexer.offset) =
      (token :: (tokenize next.offset (next.line.drop next.offset)).1,
        (tokenize next.offset (next.line.drop next.offset)).2) := by
  obtain ⟨width, hread, hpos, hle, htoken, rfl⟩ := next_of_not_isEnd h hend
  cases hrow : lexer.line.drop lexer.offset with
  | nil =>
      have hbeyond := List.drop_eq_nil_iff.mp hrow
      omega
  | cons key rest =>
      rw [hrow] at hread
      have hrest : lexer.line.drop (lexer.offset + width) = rest.drop (width - 1) := by
        rw [← List.drop_drop, hrow, List.drop_cons hpos]
      rw [tokenize_of_read token.kind width hread hend, hrest, ← htoken]

theorem tokenize_of_next_isEnd (h : lexer.next = .ok (token, next))
    (hend : token.kind.isEnd = true) :
    tokenize lexer.offset (lexer.line.drop lexer.offset) = ([], .stop lexer.offset) := by
  obtain ⟨width, hread, _, _⟩ := next_eq_ok h
  cases hrow : lexer.line.drop lexer.offset with
  | nil => rw [tokenize_nil]
  | cons key rest =>
      rw [hrow] at hread
      rw [tokenize_of_isEnd token.kind width hread hend]

/-- Where no token can be read, the tokens break off for the same reason. -/
theorem tokenize_of_next_error {fault : Fault} (h : lexer.next = .error fault) :
    ∃ offset, fault = .malformed .number offset ∧
      tokenize lexer.offset (lexer.line.drop lexer.offset) = ([], .malformed offset) := by
  unfold Lexer.next at h
  split at h
  · cases h
  · next index hread =>
      cases h
      refine ⟨lexer.offset + index, rfl, ?_⟩
      cases hrow : lexer.line.drop lexer.offset with
      | nil =>
          rw [hrow] at hread
          cases hread
      | cons key rest =>
          rw [hrow] at hread
          rw [tokenize_of_error hread]

/-- Where the lexer is at an end, no token is ahead. -/
theorem AtEnd.tokenize_eq_nil (h : lexer.AtEnd) :
    (tokenize lexer.offset (lexer.line.drop lexer.offset)).1 = [] := by
  obtain ⟨fault, hfault⟩ | ⟨token, hend, htoken⟩ := h
  · obtain ⟨_, _, htokens⟩ := tokenize_of_next_error hfault
    rw [htokens]
  · rw [tokenize_of_next_isEnd htoken hend]

/-- The tokens of the keys ahead are those that are read, and after them the lexer is at an end. -/
theorem exists_reads_tokenize (lexer : Lexer) :
    ∃ last, lexer.Reads (tokenize lexer.offset (lexer.line.drop lexer.offset)).1 last ∧
      last.AtEnd := by
  generalize hahead : lexer.line.length - lexer.offset = ahead
  induction ahead using Nat.strongRecOn generalizing lexer with
  | ind ahead ih =>
      cases hnext : lexer.next with
      | error fault =>
          have hatEnd : lexer.AtEnd := .inl ⟨fault, hnext⟩
          exact ⟨lexer, hatEnd.tokenize_eq_nil ▸ .nil lexer, hatEnd⟩
      | ok pair =>
          obtain ⟨token, next⟩ := pair
          cases hend : token.kind.isEnd with
          | true =>
              have hatEnd : lexer.AtEnd := .inr ⟨token, hend, next_of_isEnd hnext hend ▸ hnext⟩
              exact ⟨lexer, hatEnd.tokenize_eq_nil ▸ .nil lexer, hatEnd⟩
          | false =>
              rw [tokenize_of_next hnext hend]
              obtain ⟨width, _, hpos, hle, _, rfl⟩ := next_of_not_isEnd hnext hend
              have hless : lexer.line.length - (lexer.offset + width) < ahead := by omega
              obtain ⟨last, hreads, hlast⟩ :=
                ih _ hless { lexer with offset := lexer.offset + width } rfl
              exact ⟨last, .cons hnext hend hreads, hlast⟩

theorem Reads.line_eq (h : lexer.Reads tokens last) : last.line = lexer.line := by
  induction h with
  | nil => rfl
  | cons h hend _ ih =>
      obtain ⟨_, _, _, _, _, rfl⟩ := next_of_not_isEnd h hend
      exact ih

/-- The tokens that are read lie side by side up to the cursor. -/
theorem Reads.tiles (h : lexer.Reads tokens last) :
    Tiles lexer.line lexer.offset tokens last.offset := by
  induction h with
  | nil lexer => exact .nil lexer.offset
  | cons h hend _ ih =>
      obtain ⟨width, hread, hpos, _, htoken, rfl⟩ := next_of_not_isEnd h hend
      rw [htoken]
      exact .cons hpos (TokenKind.spans_of_read hread) ih

/-- The cursor stays within the line. -/
theorem Reads.offset_le (h : lexer.Reads tokens last) (hle : lexer.offset ≤ lexer.line.length) :
    last.offset ≤ last.line.length := by
  induction h with
  | nil => exact hle
  | cons h hend _ ih =>
      obtain ⟨_, _, _, hwithin, _, rfl⟩ := next_of_not_isEnd h hend
      exact ih hwithin

/-- Going back over one key and reading again gives the same token and cursor. -/
theorem next_rewind (h : lexer.next = .ok (token, next)) (hone : next.offset = lexer.offset + 1) :
    next.rewind.next = .ok (token, next) := by
  obtain ⟨width, _, _, rfl⟩ := next_eq_ok h
  have hback : Lexer.rewind { lexer with offset := lexer.offset + width } = lexer := by
    rw [rewind, hone, Nat.add_sub_cancel]
  rw [hback, h]

/-- From an offset in a line, reading comes to an end after the tokens ahead, with no more readings
than there are keys, and one for the end. The tokens that have been read at any time lie side by
side up to the cursor, which is in the line. The next token has the offset of the cursor. If it is
an end, it is read again and again; if it is a letter, no bracket opens behind it; and if the cursor
goes one key further, it can be taken back. -/
theorem reads_tiles {keys : Line} {start : Nat} (hstart : start ≤ keys.length) :
    (∃ last, Reads ⟨keys, start⟩ (tokenize start (keys.drop start)).1 last ∧ last.AtEnd ∧
        (tokenize start (keys.drop start)).1.length + 1 ≤ keys.length - start + 1) ∧
      ∀ tokens last, Reads ⟨keys, start⟩ tokens last →
        Tiles keys start tokens last.offset ∧ last.offset ≤ keys.length ∧
          ∀ token next, last.next = .ok (token, next) →
            token.offset = last.offset ∧
              (token.kind.isEnd = true → token.offset = next.offset ∧
                next.next = .ok (token, next)) ∧
              (∀ name, token.kind = .named name → keys[token.offset + 1]? ≠ some .openBracket) ∧
              (next.offset = last.offset + 1 → next.rewind.next = .ok (token, next)) := by
  constructor
  · obtain ⟨last, hreads, hlast⟩ := exists_reads_tokenize ⟨keys, start⟩
    refine ⟨last, hreads, hlast, ?_⟩
    have hcount := hreads.tiles.add_length_le
    have hwithin := hreads.offset_le hstart
    rw [hreads.line_eq] at hwithin
    simp only at hcount hwithin
    omega
  · intro tokens last hreads
    have hline : last.line = keys := hreads.line_eq
    have hwithin : last.offset ≤ keys.length := hline ▸ hreads.offset_le hstart
    refine ⟨hreads.tiles, hwithin, fun token next h => ?_⟩
    obtain ⟨width, hread, hoffset, _⟩ := next_eq_ok h
    rw [hline, Nat.min_eq_left hwithin] at hoffset
    refine ⟨hoffset, fun hend => ?_, fun name hname => ?_, next_rewind h⟩
    · obtain rfl := next_of_isEnd h hend
      exact ⟨hoffset, h⟩
    · rw [hname, hline] at hread
      rw [hoffset, ← List.getElem?_drop]
      exact TokenKind.getElem?_of_read_named hread

/-- The tokens of `sin(42)!*B+A[1]`, which a colon ends. -/
theorem reads_tiles_before_colon :
    let keys : Line := [.prefixFn .sin, .openParen, .digit 4, .digit 2, .closeParen,
      .postfixFn .factorial, .operator .multiply, .letter 'B', .operator .add, .letter 'A',
      .openBracket, .digit 1, .closeBracket, .separator .colon]
    let tokens : List Token := [⟨.prefixFn .sin, 0⟩, ⟨.openParen, 1⟩,
      ⟨.number (Binary64.nearest 42 1), 2⟩, ⟨.closeParen, 4⟩, ⟨.postfixFn .factorial, 5⟩,
      ⟨.operator .multiply, 6⟩, ⟨.named 'B', 7⟩, ⟨.operator .add, 8⟩, ⟨.indexed 'A', 9⟩,
      ⟨.number (Binary64.nearest 1 1), 11⟩, ⟨.closeBracket, 12⟩]
    0 ≤ keys.length ∧ Reads ⟨keys, 0⟩ tokens ⟨keys, 13⟩ ∧
      Lexer.next ⟨keys, 13⟩ = .ok (⟨.foreign, 13⟩, ⟨keys, 13⟩) ∧ Tiles keys 0 tokens 13 := by
  intro keys tokens
  have hreads : Reads ⟨keys, 0⟩ tokens ⟨keys, 13⟩ :=
    .cons rfl rfl <| .cons rfl rfl <| .cons rfl rfl <| .cons rfl rfl <| .cons rfl rfl <|
      .cons rfl rfl <| .cons rfl rfl <| .cons rfl rfl <| .cons rfl rfl <| .cons rfl rfl <|
        .cons rfl rfl <| .nil _
  have hstart : 0 ≤ keys.length := Nat.zero_le _
  obtain ⟨htiles, _, _⟩ := (reads_tiles hstart).2 tokens ⟨keys, 13⟩ hreads
  exact ⟨hstart, hreads, rfl, htiles⟩

end Lexer
end PocketCalc
