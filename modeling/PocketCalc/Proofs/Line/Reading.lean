import PocketCalc.Proofs.Line.Words

/-! Reading a text in parts. A text may be cut before every character that only begins spellings:
its two parts are read one after the other. Where a part stands in the text makes no difference but
for the positions. -/

namespace PocketCalc

namespace Text

theorem byteLength_append (text rest : List Char) :
    byteLength (text ++ rest) = byteLength text + byteLength rest := by
  induction text with
  | nil => simp [byteLength]
  | cons c text ih => simp only [List.cons_append, byteLength, ih, Nat.add_assoc]

end Text

/-- The same key, so many bytes further on. -/
def PlacedKey.shift (distance : Nat) (placed : PlacedKey) : PlacedKey :=
  { placed with start := placed.start + distance, stop := placed.stop + distance }

namespace Line

variable {text rest : List Char} {key : Key}

/-! ## Keys one by one -/

theorem readPlaced_nil (position : Nat) : readPlaced position [] = .ok [] := by
  rw [readPlaced]

theorem readPlaced_of_isBlank {c : Char} (h : Text.isBlank c = true) (position : Nat)
    (rest : List Char) :
    readPlaced position (c :: rest) = readPlaced (position + c.utf8Size) rest := by
  rw [readPlaced, if_pos h]

/-- A spelling is read as its key. -/
theorem readPlaced_append_of_spelled? (hne : text ≠ [])
    (hblank : ∀ c ∈ text.head?, Text.isBlank c = false)
    (hs : Key.spelled? (text ++ rest) = some (key, text.length)) (position : Nat) :
    readPlaced position (text ++ rest) =
      (readPlaced (position + Text.byteLength text) rest).map
        (⟨key, position, position + Text.byteLength text⟩ :: ·) := by
  cases text with
  | nil => exact absurd rfl hne
  | cons c tail =>
      rw [List.cons_append] at hs ⊢
      rw [readPlaced, hblank c rfl]
      simp [hs]

theorem readPlaced_blanks {blanks : List Char} (h : ∀ c ∈ blanks, Text.isBlank c = true)
    (position : Nat) (rest : List Char) :
    readPlaced position (blanks ++ rest) =
      readPlaced (position + Text.byteLength blanks) rest := by
  induction blanks generalizing position with
  | nil => rfl
  | cons c blanks ih =>
      have htail := ih (fun d hd => h d (List.mem_cons_of_mem c hd)) (position + c.utf8Size)
      rw [List.cons_append, readPlaced_of_isBlank (h c List.mem_cons_self), htail,
        Text.byteLength, Nat.add_assoc]

/-! ## Parts of a text -/

/-- The two parts of a text are read one after the other if the second does not continue a spelling
in the first. -/
theorem readPlaced_append (h : ∀ c ∈ rest.head?, Key.StartsOnly c) (position : Nat)
    (text : List Char) :
    readPlaced position (text ++ rest) =
      (readPlaced position text >>= fun placed =>
        (readPlaced (position + Text.byteLength text) rest).map (placed ++ ·)) := by
  fun_induction readPlaced position text with
  | case1 position =>
      change readPlaced position rest = (readPlaced position rest).map ([] ++ ·)
      cases readPlaced position rest <;> rfl
  | case2 position c tail hblank ih =>
      rw [List.cons_append, readPlaced_of_isBlank hblank, ih, Text.byteLength, Nat.add_assoc]
  | case3 position c tail hblank hs =>
      have happend : Key.spelled? (c :: (tail ++ rest)) = none := by
        rw [← hs]
        exact Key.spelled?_append (List.cons_ne_nil c tail) fun d hd =>
          (h d hd).not_mem_continuations (List.cons_ne_nil c tail)
      rw [List.cons_append, readPlaced, if_neg hblank, happend]
      rfl
  | case4 position c tail hblank key width hs stop ih =>
      -- the spelling lies within the first part, and nothing longer fits across the cut
      have happend : Key.spelled? (c :: (tail ++ rest)) = some (key, width) := by
        rw [← hs]
        exact Key.spelled?_append (List.cons_ne_nil c tail) fun d hd =>
          (h d hd).not_mem_continuations (List.cons_ne_nil c tail)
      have hwidth := Key.width_le_of_spelled? hs
      have hpos := Key.spelled?_width_pos hs
      have hdrop : (tail ++ rest).drop (width - 1) = tail.drop (width - 1) ++ rest :=
        List.drop_append_of_le_length (by simp at hwidth; omega)
      have htake : (c :: (tail ++ rest)).take width = (c :: tail).take width := by
        rw [← List.cons_append, List.take_append_of_le_length hwidth]
      have hstop : stop + Text.byteLength (tail.drop (width - 1)) =
          position + Text.byteLength (c :: tail) := by
        have hsplit := congrArg Text.byteLength (List.take_append_drop width (c :: tail))
        rw [Text.byteLength_append, List.drop_cons hpos] at hsplit
        omega
      rw [List.cons_append, readPlaced, if_neg hblank, happend]
      simp only [hdrop, htake]
      rw [ih, hstop]
      cases readPlaced stop (tail.drop (width - 1)) with
      | error position => rfl
      | ok placed =>
          change Except.map _ (Except.map _ _) = Except.map _ _
          cases readPlaced (position + Text.byteLength (c :: tail)) rest <;> rfl

/-- Where a text begins only moves the positions in it. -/
theorem readPlaced_add (position distance : Nat) (text : List Char) :
    readPlaced (position + distance) text =
      ((readPlaced position text).map (List.map (PlacedKey.shift distance))).mapError
        (· + distance) := by
  fun_induction readPlaced position text with
  | case1 position =>
      rw [readPlaced]
      rfl
  | case2 position c tail hblank ih =>
      rw [readPlaced_of_isBlank hblank, ← ih, Nat.add_right_comm]
  | case3 position c tail hblank hs =>
      rw [readPlaced, if_neg hblank, hs]
      rfl
  | case4 position c tail hblank key width hs stop ih =>
      rw [readPlaced, if_neg hblank, hs]
      simp only
      rw [Nat.add_right_comm, ih]
      cases readPlaced stop (tail.drop (width - 1)) <;> rfl

/-- Blanks at the end of a text are not read. -/
theorem readPlaced_append_blanks {blanks : List Char}
    (h : ∀ c ∈ blanks, Text.isBlank c = true) (position : Nat) (text : List Char) :
    readPlaced position (text ++ blanks) = readPlaced position text := by
  have hstarts : ∀ c ∈ blanks.head?, Key.StartsOnly c := by
    intro c hc
    have hblank := h c (List.mem_of_mem_head? hc)
    simp only [Text.isBlank, Bool.or_eq_true, decide_eq_true_eq] at hblank
    rcases hblank with rfl | rfl
    · exact Key.startsOnly_space
    · exact Key.startsOnly_tab
  have hnone (next : Nat) : readPlaced next blanks = .ok [] := by
    have hread := readPlaced_blanks h next []
    rwa [List.append_nil, readPlaced_nil] at hread
  rw [readPlaced_append hstarts, hnone]
  cases readPlaced position text with
  | error place => rfl
  | ok placed => exact congrArg Except.ok (List.append_nil placed)

/-! ## Numbers in one piece -/

theorem splitNumber?_map_shift (distance : Nat) (placed : List PlacedKey) :
    splitNumber? (placed.map (PlacedKey.shift distance)) =
      (splitNumber? placed).map (· + distance) := by
  induction placed with
  | nil => rfl
  | cons a rest ih =>
      cases rest with
      | nil => rfl
      | cons b rest =>
          have hapart : ((a.shift distance).stop != (b.shift distance).start) =
              (a.stop != b.start) := by
            simp [PlacedKey.shift, bne]
          have hkeys : (a.shift distance).key = a.key ∧ (b.shift distance).key = b.key := ⟨rfl, rfl⟩
          simp only [List.map_cons, splitNumber?, hapart, hkeys] at ih ⊢
          rw [ih]
          split <;> rfl

theorem splitNumber?_cons {separator : PlacedKey} (h : separator.key.isNumeric = false)
    (after : List PlacedKey) : splitNumber? (separator :: after) = splitNumber? after := by
  cases after with
  | nil => rfl
  | cons b after => simp [splitNumber?, h]

/-- A key that belongs to no number parts the numbers on its two sides. -/
theorem splitNumber?_append_cons {separator : PlacedKey} (h : separator.key.isNumeric = false)
    (before after : List PlacedKey) :
    splitNumber? (before ++ separator :: after) =
      (splitNumber? before).or (splitNumber? after) := by
  induction before with
  | nil => exact splitNumber?_cons h after
  | cons a rest ih =>
      cases rest with
      | nil =>
          have hpair : splitNumber? (a :: separator :: after) =
              splitNumber? (separator :: after) := by
            simp [splitNumber?, h]
          rw [List.singleton_append, hpair, splitNumber?_cons h]
          rfl
      | cons b rest =>
          simp only [List.cons_append, splitNumber?] at ih ⊢
          split
          · rfl
          · exact ih

/-! ## Whole texts -/

@[simp] theorem read_nil : read [] = .ok [] :=
  read_of_readPlaced_ok (readPlaced_nil 0)

theorem read_eq_ok_iff {line : Line} :
    read text = .ok line ↔ ∃ placed, readPlaced 0 text = .ok placed ∧
      splitNumber? placed = none ∧ placed.map PlacedKey.key = line := by
  constructor
  · intro h
    cases hplaced : readPlaced 0 text with
    | error place => cases (read_of_readPlaced_error hplaced).symm.trans h
    | ok placed =>
        rw [read_of_readPlaced_ok hplaced] at h
        cases hsplit : splitNumber? placed with
        | some stop =>
            rw [hsplit] at h
            cases h
        | none =>
            rw [hsplit] at h
            exact ⟨placed, rfl, hsplit, Except.ok.inj h⟩
  · rintro ⟨placed, hplaced, hsplit, rfl⟩
    rw [read_of_readPlaced_ok hplaced, hsplit]
    rfl

/-- A text can be read from any position. -/
theorem read_of_readPlaced {position : Nat} {placed : List PlacedKey}
    (h : readPlaced position text = .ok placed) (hsplit : splitNumber? placed = none) :
    read text = .ok (placed.map PlacedKey.key) := by
  rw [← Nat.zero_add position, readPlaced_add] at h
  cases hread : readPlaced 0 text with
  | error place =>
      rw [hread] at h
      cases h
  | ok unmoved =>
      rw [hread] at h
      cases h
      rw [splitNumber?_map_shift] at hsplit
      refine read_eq_ok_iff.mpr ⟨unmoved, hread, Option.map_eq_none_iff.mp hsplit, ?_⟩
      rw [List.map_map]
      rfl

theorem hasCap_of_readPlaced (position : Nat) (text : List Char) :
    ∀ placed, readPlaced position text = .ok placed → ∀ p ∈ placed, p.key.HasCap := by
  fun_induction readPlaced position text with
  | case1 position =>
      intro placed h
      cases h
      simp
  | case2 position c tail hblank ih => exact ih
  | case3 position c tail hblank hs =>
      intro placed h
      cases h
  | case4 position c tail hblank key width hs stop ih =>
      intro placed h
      cases hrest : readPlaced stop (tail.drop (width - 1)) with
      | error place =>
          rw [hrest] at h
          cases h
      | ok rest =>
          rw [hrest] at h
          cases h
          intro p hp
          rcases List.mem_cons.mp hp with rfl | hp
          · exact Key.hasCap_of_spelled? hs
          · exact ih rest hrest p hp

/-- Only keys with a key cap are read. -/
theorem hasCap_of_read {line : Line} (h : read text = .ok line) : ∀ key ∈ line, key.HasCap := by
  obtain ⟨placed, hplaced, _, rfl⟩ := read_eq_ok_iff.mp h
  intro key hkey
  obtain ⟨p, hp, rfl⟩ := List.mem_map.mp hkey
  exact hasCap_of_readPlaced 0 text placed hplaced p hp

/-- No spelling goes on after a colon. -/
theorem readPlaced_colon (position : Nat) (rest : List Char) :
    readPlaced position (':' :: rest) =
      (readPlaced (position + 1) rest).map
        (⟨.separator .colon, position, position + 1⟩ :: ·) := by
  have hs : Key.spelled? ([':'] ++ rest) = some (.separator .colon, 1) := by
    rw [Key.spelled?_append (List.cons_ne_nil _ _)]
    · decide
    · intro c _
      have hnone : Key.continuations [':'] = [] := by decide
      simp [hnone]
  have hblank : ∀ c ∈ [':'].head?, Text.isBlank c = false := by
    rintro c ⟨⟩
    rfl
  exact readPlaced_append_of_spelled? (List.cons_ne_nil _ _) hblank hs position

/-- Two texts with a colon between them are read as the two lines with a colon between them. -/
theorem read_append_colon {first second : List Char} {line next : Line}
    (hfirst : read first = .ok line) (hsecond : read second = .ok next) :
    read (first ++ ':' :: second) = .ok (line ++ .separator .colon :: next) := by
  obtain ⟨before, hbefore, hsplitBefore, rfl⟩ := read_eq_ok_iff.mp hfirst
  obtain ⟨after, hafter, hsplitAfter, rfl⟩ := read_eq_ok_iff.mp hsecond
  have hcolon : ∀ c ∈ (':' :: second).head?, Key.StartsOnly c := by
    rintro c ⟨⟩
    exact Key.startsOnly_colon
  let stop := Text.byteLength first
  have hmoved : readPlaced (stop + 1) second =
      .ok (after.map (PlacedKey.shift (stop + 1))) := by
    rw [← Nat.zero_add (stop + 1), readPlaced_add, hafter, Nat.zero_add]
    rfl
  have hread : readPlaced 0 (first ++ ':' :: second) =
      .ok (before ++ ⟨.separator .colon, stop, stop + 1⟩ ::
        after.map (PlacedKey.shift (stop + 1))) := by
    rw [readPlaced_append hcolon, hbefore, Nat.zero_add, readPlaced_colon, hmoved]
    rfl
  refine read_eq_ok_iff.mpr ⟨_, hread, ?_, ?_⟩
  · rw [splitNumber?_append_cons rfl, hsplitBefore, splitNumber?_map_shift, hsplitAfter]
    rfl
  · simp only [List.map_append, List.map_cons, List.map_map]
    rfl

end Line
end PocketCalc
