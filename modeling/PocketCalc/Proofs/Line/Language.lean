import Mathlib.Data.List.Chain
import PocketCalc.Proofs.Key.Longest
import PocketCalc.Proofs.Line.Reading

/-! The texts that are lines. A text is cut into blanks and spellings, each of them the longest that
fits at its place, and no number is cut by blanks. There is at most one way to do so, and reading
finds it. -/

namespace PocketCalc

namespace Text

/-- Blanks are told from what follows them by its first character. -/
theorem takeWhile_isBlank {blanks rest : List Char} (hblanks : ∀ c ∈ blanks, isBlank c = true)
    (hrest : ∀ c ∈ rest.head?, isBlank c = false) :
    (blanks ++ rest).takeWhile isBlank = blanks := by
  rw [List.takeWhile_append_of_pos hblanks]
  cases rest with
  | nil => exact List.append_nil blanks
  | cons c rest =>
      rw [List.takeWhile_cons_of_neg (by simp [hrest c rfl]), List.append_nil]

theorem byteLength_eq_zero_iff {text : List Char} : byteLength text = 0 ↔ text = [] := by
  cases text with
  | nil => simp [byteLength]
  | cons c rest =>
      have hpos := c.utf8Size_pos
      simp only [byteLength, reduceCtorEq, iff_false]
      omega

end Text

/-- A key, the spelling that stands for it in a text, and the blanks behind that. -/
structure SpelledKey where
  key : Key
  spelling : List Char
  blanks : List Char
  deriving DecidableEq, Repr

namespace SpelledKey

def text (piece : SpelledKey) : List Char := piece.spelling ++ piece.blanks

/-- The pieces of a text from a position on, as places in it. -/
def place (position : Nat) : List SpelledKey → List PlacedKey
  | [] => []
  | piece :: rest =>
    ⟨piece.key, position, position + Text.byteLength piece.spelling⟩ ::
      place (position + Text.byteLength piece.text) rest

theorem map_key_place (position : Nat) (pieces : List SpelledKey) :
    (place position pieces).map PlacedKey.key = pieces.map key := by
  induction pieces generalizing position with
  | nil => rfl
  | cons piece rest ih => simp only [place, List.map_cons, ih]

/-- No blank parts two digits or dots. -/
def KeepNumbers (pieces : List SpelledKey) : Prop :=
  pieces.IsChain fun piece next =>
    piece.key.isNumeric = true → next.key.isNumeric = true → piece.blanks = []

end SpelledKey

/-- The text consists of the pieces, and the spelling in each is the longest that fits there. -/
inductive Spells : List SpelledKey → List Char → Prop where
  | nil : Spells [] []
  | cons {piece : SpelledKey} {pieces : List SpelledKey} {rest : List Char}
      (hbegins : Key.Begins (piece.text ++ rest) piece.key piece.spelling)
      (hblanks : ∀ c ∈ piece.blanks, Text.isBlank c = true) (hrest : Spells pieces rest) :
      Spells (piece :: pieces) (piece.text ++ rest)

/-- A text cut into the blanks before its first key and the keys. -/
structure Dissection where
  lead : List Char
  pieces : List SpelledKey
  deriving DecidableEq, Repr

namespace Dissection

def line (dissection : Dissection) : Line := dissection.pieces.map SpelledKey.key

/-- The text is a line, and this is how it is made of its keys. -/
structure Dissects (dissection : Dissection) (text : List Char) : Prop where
  lead_isBlank : ∀ c ∈ dissection.lead, Text.isBlank c = true
  spells : ∃ rest, text = dissection.lead ++ rest ∧ Spells dissection.pieces rest
  keepNumbers : SpelledKey.KeepNumbers dissection.pieces

end Dissection

/-! ## One way at most -/

theorem Spells.isBlank_head {pieces : List SpelledKey} {text : List Char} (h : Spells pieces text) :
    ∀ c ∈ text.head?, Text.isBlank c = false := by
  cases h with
  | nil => simp
  | @cons piece pieces rest hbegins _ _ =>
      cases hspelling : piece.spelling with
      | nil =>
          have hpos := hbegins.spelled.length_pos
          rw [hspelling] at hpos
          exact absurd hpos (Nat.lt_irrefl 0)
      | cons d tail =>
          intro c hc
          rw [SpelledKey.text, hspelling] at hc
          cases hc
          exact hbegins.spelled.isBlank_head d (by rw [hspelling]; rfl)

/-- Blanks and a text that begins with a key can only be told apart in one way. -/
theorem Spells.blanks_unique {pieces others : List SpelledKey} {lead blanks text rest : List Char}
    (hlead : ∀ c ∈ lead, Text.isBlank c = true) (hblanks : ∀ c ∈ blanks, Text.isBlank c = true)
    (h : Spells pieces text) (hother : Spells others rest) (heq : lead ++ text = blanks ++ rest) :
    lead = blanks ∧ text = rest := by
  have hsame := congrArg (List.takeWhile Text.isBlank) heq
  rw [Text.takeWhile_isBlank hlead h.isBlank_head,
    Text.takeWhile_isBlank hblanks hother.isBlank_head] at hsame
  subst hsame
  exact ⟨rfl, List.append_cancel_left heq⟩

theorem Spells.unique {pieces others : List SpelledKey} {text : List Char}
    (h : Spells pieces text) (hother : Spells others text) : pieces = others := by
  induction h generalizing others with
  | nil =>
      generalize htext : ([] : List Char) = text at hother
      cases hother with
      | nil => rfl
      | cons hbegins _ _ =>
          have hpos := hbegins.spelled.length_pos
          have hlength := congrArg List.length htext
          simp only [SpelledKey.text, List.length_nil, List.length_append] at hlength
          omega
  | @cons piece pieces rest hbegins hblanks hrest ih =>
      generalize htext : piece.text ++ rest = text at hother
      cases hother with
      | nil =>
          have hpos := hbegins.spelled.length_pos
          have hlength := congrArg List.length htext
          simp only [SpelledKey.text, List.length_nil, List.length_append] at hlength
          omega
      | @cons other others behind hbegins' hblanks' hrest' =>
          rw [← htext] at hbegins'
          obtain ⟨hkey, hspelling⟩ := hbegins.unique hbegins'
          rw [SpelledKey.text, SpelledKey.text, hspelling, List.append_assoc, List.append_assoc]
            at htext
          obtain ⟨hsame, rfl⟩ :=
            hrest.blanks_unique hblanks hblanks' hrest' (List.append_cancel_left htext)
          obtain ⟨key, spelling, blanks⟩ := piece
          obtain ⟨key', spelling', blanks'⟩ := other
          cases hkey
          cases hspelling
          cases hsame
          rw [ih hrest']

/-- A text can be cut in one way at most. -/
theorem Dissection.Dissects.unique {dissection other : Dissection} {text : List Char}
    (h : dissection.Dissects text) (hother : other.Dissects text) : dissection = other := by
  obtain ⟨rest, htext, hrest⟩ := h.spells
  obtain ⟨behind, htext', hbehind⟩ := hother.spells
  obtain ⟨hlead, rfl⟩ := hrest.blanks_unique h.lead_isBlank hother.lead_isBlank hbehind
    (htext.symm.trans htext')
  have hpieces := hrest.unique hbehind
  obtain ⟨lead, pieces⟩ := dissection
  obtain ⟨lead', pieces'⟩ := other
  cases hlead
  cases hpieces
  rfl

/-! ## The way that reading finds -/

namespace Line

theorem readPlaced_of_begins {key : Key} {spelling rest : List Char}
    (h : Key.Begins (spelling ++ rest) key spelling) (position : Nat) :
    readPlaced position (spelling ++ rest) =
      (readPlaced (position + Text.byteLength spelling) rest).map
        (⟨key, position, position + Text.byteLength spelling⟩ :: ·) :=
  readPlaced_append_of_spelled? (List.length_pos_iff.mp h.spelled.length_pos)
    h.spelled.isBlank_head h.spelled?_eq position

theorem readPlaced_of_spells {pieces : List SpelledKey} {text : List Char} (h : Spells pieces text)
    (position : Nat) :
    readPlaced position text = .ok (SpelledKey.place position pieces) := by
  induction h generalizing position with
  | nil => exact readPlaced_nil position
  | @cons piece pieces rest hbegins hblanks _ ih =>
      rw [SpelledKey.text, List.append_assoc] at hbegins ⊢
      rw [readPlaced_of_begins hbegins, readPlaced_blanks hblanks, ih, SpelledKey.place,
        SpelledKey.text, Text.byteLength_append, Nat.add_assoc]
      rfl

theorem exists_spells_of_readPlaced (position : Nat) (text : List Char) :
    ∀ placed, readPlaced position text = .ok placed →
      ∃ lead pieces rest, (∀ c ∈ lead, Text.isBlank c = true) ∧ text = lead ++ rest ∧
        Spells pieces rest ∧
          placed = SpelledKey.place (position + Text.byteLength lead) pieces := by
  fun_induction readPlaced position text with
  | case1 position =>
      intro placed h
      cases h
      exact ⟨[], [], [], by simp, rfl, .nil, rfl⟩
  | case2 position c tail hblank ih =>
      intro placed h
      obtain ⟨lead, pieces, rest, hlead, rfl, hrest, rfl⟩ := ih placed h
      refine ⟨c :: lead, pieces, rest, ?_, rfl, hrest, ?_⟩
      · exact List.forall_mem_cons.mpr ⟨hblank, hlead⟩
      · rw [Text.byteLength, Nat.add_assoc]
  | case3 position c tail hblank hs =>
      intro placed h
      cases h
  | case4 position c tail hblank key width hs stop ih =>
      intro placed h
      cases hread : readPlaced stop (tail.drop (width - 1)) with
      | error place =>
          rw [hread] at h
          cases h
      | ok behind =>
          rw [hread] at h
          cases h
          obtain ⟨spelling, hbegins, htext, htake⟩ := Key.append_of_spelled? hs
          obtain ⟨blanks, pieces, rest, hblanks, hdrop, hrest, rfl⟩ := ih behind hread
          -- the blanks that the rest begins with belong to the key before them
          let piece : SpelledKey := ⟨key, spelling, blanks⟩
          have hpiece : spelling ++ tail.drop (width - 1) = piece.text ++ rest := by
            rw [hdrop, SpelledKey.text, List.append_assoc]
          refine ⟨[], piece :: pieces, c :: tail, by simp, rfl, ?_, ?_⟩
          · rw [← htext, hpiece]
            rw [hpiece] at hbegins
            exact .cons hbegins hblanks hrest
          · simp only [stop, htake, SpelledKey.place, SpelledKey.text, piece, Text.byteLength,
              Text.byteLength_append, Nat.add_assoc, Nat.add_zero]

/-- A number is split between the first two keys if both are digits or dots and blanks part them. -/
theorem splitNumber?_place_cons_cons (position : Nat) (piece next : SpelledKey)
    (rest : List SpelledKey) :
    splitNumber? (SpelledKey.place position (piece :: next :: rest)) =
      if piece.key.isNumeric = true ∧ next.key.isNumeric = true ∧ piece.blanks ≠ [] then
        some (position + Text.byteLength piece.spelling)
      else
        splitNumber? (SpelledKey.place (position + Text.byteLength piece.text) (next :: rest)) := by
  have happart : position + Text.byteLength piece.spelling ≠
      position + Text.byteLength piece.text ↔ piece.blanks ≠ [] := by
    rw [SpelledKey.text, Text.byteLength_append, Ne, Ne, ← Text.byteLength_eq_zero_iff]
    omega
  simp only [SpelledKey.place, splitNumber?, Bool.and_eq_true, bne_iff_ne, happart, and_assoc]

theorem splitNumber?_place_eq_none_iff (position : Nat) (pieces : List SpelledKey) :
    splitNumber? (SpelledKey.place position pieces) = none ↔ SpelledKey.KeepNumbers pieces := by
  induction pieces generalizing position with
  | nil => simp [SpelledKey.place, splitNumber?, SpelledKey.KeepNumbers]
  | cons piece pieces ih =>
      cases pieces with
      | nil => simp [SpelledKey.place, splitNumber?, SpelledKey.KeepNumbers]
      | cons next pieces =>
          rw [SpelledKey.KeepNumbers, List.isChain_cons_cons, ← SpelledKey.KeepNumbers,
            ← ih (position + Text.byteLength piece.text), splitNumber?_place_cons_cons]
          split
          · next hsplit =>
              constructor
              · intro h
                cases h
              · intro h
                exact absurd (h.1 hsplit.1 hsplit.2.1) hsplit.2.2
          · next hkept =>
              refine ⟨fun h => ⟨fun hfirst hsecond => ?_, h⟩, fun h => h.2⟩
              by_contra hne
              exact hkept ⟨hfirst, hsecond, hne⟩

/-- Reading a text is cutting it. -/
theorem read_eq_ok_iff_dissects {text : List Char} {line : Line} :
    read text = .ok line ↔
      ∃ dissection : Dissection, dissection.Dissects text ∧ dissection.line = line := by
  rw [read_eq_ok_iff]
  constructor
  · rintro ⟨placed, hread, hsplit, rfl⟩
    obtain ⟨lead, pieces, rest, hlead, htext, hrest, rfl⟩ :=
      exists_spells_of_readPlaced 0 text placed hread
    have hnumbers := (splitNumber?_place_eq_none_iff _ pieces).mp hsplit
    refine ⟨⟨lead, pieces⟩, ⟨hlead, ⟨rest, htext, hrest⟩, hnumbers⟩, ?_⟩
    exact (SpelledKey.map_key_place _ pieces).symm
  · rintro ⟨⟨lead, pieces⟩, ⟨hlead, ⟨rest, rfl, hrest⟩, hnumbers⟩, rfl⟩
    refine ⟨SpelledKey.place (0 + Text.byteLength lead) pieces, ?_, ?_, ?_⟩
    · rw [readPlaced_blanks hlead, readPlaced_of_spells hrest]
    · exact (splitNumber?_place_eq_none_iff _ pieces).mpr hnumbers
    · exact SpelledKey.map_key_place _ pieces

/-- A text is a line if and only if it can be cut into the keys of the line; there is only one way
to cut it, and none of the keys is without a key cap. -/
theorem ofText_language (text : String) :
    (∀ line, ofText text = .ok line ↔
        ∃ dissection : Dissection, dissection.Dissects text.toList ∧ dissection.line = line) ∧
      (∀ dissection other : Dissection, dissection.Dissects text.toList →
        other.Dissects text.toList → dissection = other) ∧
      ∀ line, ofText text = .ok line → ∀ key ∈ line, key.HasCap :=
  ⟨fun _ => read_eq_ok_iff_dissects, fun _ _ h hother => h.unique hother,
    fun _ h => hasCap_of_read h⟩

/-- The longest spelling counts: no sine stands in ` asinh sinh->A`, and no minus. -/
theorem ofText_language_of_longest :
    ofText " asinh sinh->A" =
        .ok [.prefixFn .arsinh, .prefixFn .sinh, .separator .assign, .letter 'A'] ∧
      (∃ dissection : Dissection, dissection.Dissects " asinh sinh->A".toList ∧
        ∀ other : Dissection, other.Dissects " asinh sinh->A".toList → dissection = other) ∧
      ∀ key ∈ [.prefixFn .arsinh, .prefixFn .sinh, .separator .assign, .letter 'A'],
        Key.HasCap key := by
  have hread : ofText " asinh sinh->A" =
      .ok [.prefixFn .arsinh, .prefixFn .sinh, .separator .assign, .letter 'A'] := by
    decide +kernel
  obtain ⟨hiff, hunique, hcap⟩ := ofText_language " asinh sinh->A"
  obtain ⟨dissection, hdissects, _⟩ := (hiff _).mp hread
  exact ⟨hread, ⟨dissection, hdissects, fun other => hunique dissection other hdissects⟩,
    hcap _ hread⟩

end Line
end PocketCalc
