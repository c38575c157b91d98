import Mathlib.Data.List.Basic
import Mathlib.Data.List.TakeWhile
import PocketCalc.Proofs.Line.Reading

/-! A printed line is read back as the line. Between two labels there is a blank where the second
would continue the first, and none inside a number. -/

namespace PocketCalc

namespace Text

/-! ## Trimming -/

theorem exists_trimRight_append (text : List Char) :
    ∃ after, (∀ c ∈ after, isWhiteSpace c = true) ∧ text = trimRight text ++ after := by
  induction text with
  | nil => exact ⟨[], by simp, rfl⟩
  | cons c rest ih =>
      obtain ⟨after, hafter, hrest⟩ := ih
      cases hkept : trimRight rest with
      | nil =>
          rw [hkept, List.nil_append] at hrest
          subst hrest
          cases hc : isWhiteSpace c with
          | true => exact ⟨c :: rest, by simpa [hc] using hafter, by simp [trimRight, hkept, hc]⟩
          | false => exact ⟨rest, hafter, by simp [trimRight, hkept, hc]⟩
      | cons d kept =>
          refine ⟨after, hafter, ?_⟩
          have htrim : trimRight (c :: rest) = c :: d :: kept := by
            simp only [trimRight, hkept]
          rw [htrim, List.cons_append, ← hkept, ← hrest]

/-- Where all white space is blank, trimming takes blanks off both ends. -/
theorem exists_blanks_trim {text : List Char}
    (h : ∀ c ∈ text, isWhiteSpace c = true → isBlank c = true) :
    ∃ before after, (∀ c ∈ before, isBlank c = true) ∧ (∀ c ∈ after, isBlank c = true) ∧
      text = before ++ (trim text ++ after) := by
  obtain ⟨after, hafter, hright⟩ := exists_trimRight_append (trimLeft text)
  have hleft : text = text.takeWhile isWhiteSpace ++ trimLeft text :=
    List.takeWhile_append_dropWhile.symm
  have hsplit : text = text.takeWhile isWhiteSpace ++ (trim text ++ after) := by
    rw [trim, ← hright]
    exact hleft
  refine ⟨text.takeWhile isWhiteSpace, after, fun c hc => ?_, fun c hc => ?_, hsplit⟩
  · exact h c (List.takeWhile_subset _ hc) (List.mem_takeWhile_imp hc)
  · refine h c ?_ (hafter c hc)
    rw [hsplit]
    simp [hc]

end Text

namespace Line

/-- A text is read as before when it is trimmed. -/
theorem read_trim {text : List Char} {placed : List PlacedKey}
    (hblank : ∀ c ∈ text, Text.isWhiteSpace c = true → Text.isBlank c = true)
    (h : readPlaced 0 text = .ok placed) (hsplit : splitNumber? placed = none) :
    read (Text.trim text) = .ok (placed.map PlacedKey.key) := by
  obtain ⟨before, after, hbefore, hafter, htext⟩ := Text.exists_blanks_trim hblank
  rw [htext, readPlaced_blanks hbefore, readPlaced_append_blanks hafter] at h
  exact read_of_readPlaced h hsplit

end Line

/-! ## The places of printed keys -/

/-- How many blanks there are on each side of the label. -/
def Key.padding (key : Key) : Nat := if key.isWord then 1 else 0

namespace Line

/-- Where the keys of a line stand in its text. -/
def place (position : Nat) : Line → List PlacedKey
  | [] => []
  | key :: rest =>
    let start := position + key.padding
    let stop := start + Text.byteLength key.label.toList
    ⟨key, start, stop⟩ :: place (stop + key.padding) rest

theorem map_key_place (position : Nat) (line : Line) :
    (place position line).map PlacedKey.key = line := by
  induction line generalizing position with
  | nil => rfl
  | cons key rest ih => simp only [place, List.map_cons, ih]

theorem padding_of_isNumeric {key : Key} (hcap : key.HasCap) (h : key.isNumeric = true) :
    key.padding = 0 := by
  have hall : key.isNumeric = true → key.padding = 0 := by
    refine hcap.elim (fun name _ hletter => ?_) (by decide)
    cases hletter
  exact hall h

/-- The digits and dots of a number stand side by side. -/
theorem splitNumber?_place (position : Nat) {line : Line} (h : ∀ key ∈ line, key.HasCap) :
    splitNumber? (place position line) = none := by
  induction line generalizing position with
  | nil => rfl
  | cons a rest ih =>
      have hrest : ∀ key ∈ rest, key.HasCap := fun key hkey => h key (List.mem_cons_of_mem a hkey)
      cases rest with
      | nil => rfl
      | cons b rest =>
          have hnext := ih (position + a.padding + Text.byteLength a.label.toList + a.padding) hrest
          simp only [place, splitNumber?] at hnext ⊢
          split
          · next hpair =>
              simp only [Bool.and_eq_true, bne_iff_ne] at hpair
              obtain ⟨⟨ha, hb⟩, hapart⟩ := hpair
              rw [padding_of_isNumeric (h a (by simp)) ha,
                padding_of_isNumeric (h b (by simp)) hb] at hapart
              exact absurd rfl hapart
          · exact hnext

theorem head?_flatMap_spaced_ne {line : Line} (h : ∀ key ∈ line, key.HasCap) :
    (line.flatMap Key.spaced).head? ≠ some '>' := by
  cases line with
  | nil => simp
  | cons key rest =>
      have hcap := h key List.mem_cons_self
      rw [List.flatMap_cons, Key.spaced]
      split
      · simp
      · rw [List.head?_append_of_ne_nil _ (Key.label_ne_nil hcap)]
        exact Key.head?_label_ne hcap

/-- A label is read back before everything that does not continue it. -/
theorem readPlaced_label {key : Key} (h : key.HasCap) (position : Nat) {rest : List Char}
    (hrest : ∀ c ∈ rest.head?, c ∉ Key.continuations key.label.toList) :
    readPlaced position (key.label.toList ++ rest) =
      (readPlaced (position + Text.byteLength key.label.toList) rest).map
        (⟨key, position, position + Text.byteLength key.label.toList⟩ :: ·) := by
  refine readPlaced_append_of_spelled? (Key.label_ne_nil h) (fun c hc => ?_) ?_ position
  · have hspace := Key.isWhiteSpace_of_mem_label h c (List.mem_of_mem_head? hc)
    rw [Bool.eq_false_iff]
    intro hblank
    rw [Text.isWhiteSpace_of_isBlank hblank] at hspace
    cases hspace
  · rw [Key.spelled?_append (Key.label_ne_nil h) hrest]
    exact Key.spelled?_label h

/-- Every key is found where its label has been printed. -/
theorem readPlaced_flatMap_spaced (position : Nat) {line : Line} (h : ∀ key ∈ line, key.HasCap) :
    readPlaced position (line.flatMap Key.spaced) = .ok (place position line) := by
  induction line generalizing position with
  | nil => exact readPlaced_nil position
  | cons key rest ih =>
      have hcap := h key List.mem_cons_self
      have hrest : ∀ next ∈ rest, next.HasCap := fun next hnext =>
        h next (List.mem_cons_of_mem key hnext)
      have hblank : Text.isBlank ' ' = true := rfl
      cases hw : key.isWord with
      | true =>
          -- the blank behind the word is what keeps it from being continued
          have hspace : ∀ c ∈ (' ' :: rest.flatMap Key.spaced).head?,
              c ∉ Key.continuations key.label.toList := by
            rintro c ⟨⟩
            exact Key.startsOnly_space.not_mem_continuations (Key.label_ne_nil hcap)
          have hpadding : key.padding = ' '.utf8Size := by
            simp only [Key.padding, hw]
            rfl
          simp only [List.flatMap_cons, Key.spaced, hw, if_true, List.cons_append,
            List.append_assoc, List.nil_append]
          rw [readPlaced_of_isBlank hblank, readPlaced_label hcap _ hspace,
            readPlaced_of_isBlank hblank, ih _ hrest, ← hpadding]
          rfl
      | false =>
          -- only an arrow could come of the label, and no label begins with its second character
          have hnext : ∀ c ∈ (rest.flatMap Key.spaced).head?,
              c ∉ Key.continuations key.label.toList := by
            intro c hc hmem
            rw [Key.eq_of_mem_continuations hcap hw hmem] at hc
            exact head?_flatMap_spaced_ne hrest hc
          have hpadding : key.padding = 0 := by
            simp only [Key.padding, hw]
            rfl
          simp only [List.flatMap_cons, Key.spaced, hw, Bool.false_eq_true, if_false]
          rw [readPlaced_label hcap _ hnext, ih _ hrest]
          simp only [place, hpadding, Nat.add_zero]
          rfl

/-- The only white space in a printed line are blanks. -/
theorem isBlank_of_mem_flatMap_spaced {line : Line} (h : ∀ key ∈ line, key.HasCap) :
    ∀ c ∈ line.flatMap Key.spaced, Text.isWhiteSpace c = true → Text.isBlank c = true := by
  intro c hc hspace
  obtain ⟨key, hkey, hc⟩ := List.mem_flatMap.mp hc
  have hlabel : c ∉ key.label.toList := fun hmem => by
    rw [Key.isWhiteSpace_of_mem_label (h key hkey) c hmem] at hspace
    cases hspace
  unfold Key.spaced at hc
  split at hc
  · simp only [List.mem_cons, List.mem_append, List.not_mem_nil, or_false, hlabel, false_or,
      or_self] at hc
    rw [hc]
    rfl
  · exact absurd hc hlabel

theorem read_print {line : Line} (h : ∀ key ∈ line, key.HasCap) : read line.print = .ok line := by
  have hread := read_trim (isBlank_of_mem_flatMap_spaced h) (readPlaced_flatMap_spaced 0 h)
    (splitNumber?_place 0 h)
  rwa [map_key_place] at hread

/-- Every line of keys with a key cap survives printing and reading, whether or not it means
anything; so does every line that was read from a text. -/
theorem ofText_text :
    (∀ line : Line, (∀ key ∈ line, key.HasCap) → ofText line.text = .ok line) ∧
      ∀ (text : String) (line : Line), ofText text = .ok line → ofText line.text = .ok line := by
  have hall (line : Line) (h : ∀ key ∈ line, key.HasCap) : ofText line.text = .ok line := by
    rw [ofText, toList_text]
    exact read_print h
  exact ⟨hall, fun text line h => hall line (hasCap_of_read h)⟩

/-- Words that meet, a word without padding before a digit, and a minus before a product. -/
theorem ofText_text_of_words :
    (∀ key ∈ [.prefixFn .sin, .prefixFn (.marker .hexadecimal), .prefixFn .powerOfTen, .digit 0,
        .operator .subtract, .letter 'Z', .operator .root], Key.HasCap key) ∧
      ofText (text [.prefixFn .sin, .prefixFn (.marker .hexadecimal), .prefixFn .powerOfTen,
          .digit 0, .operator .subtract, .letter 'Z', .operator .root]) =
        .ok [.prefixFn .sin, .prefixFn (.marker .hexadecimal), .prefixFn .powerOfTen, .digit 0,
          .operator .subtract, .letter 'Z', .operator .root] :=
  ⟨by decide, ofText_text.1 _ (by decide)⟩

end Line
end PocketCalc
