import Mathlib.Order.Bounds.Basic
import PocketCalc.Proofs.Calculator.Frame
import PocketCalc.Proofs.Line.Language

/-! Why a text is no line. Going through it from its beginning, one comes to a place where no
spelling fits. If there is no such place, the first number that blanks part is to blame. -/

namespace PocketCalc

namespace Text

/-- Going through a text over blanks and over the longest spellings that fit, one comes from the
first position to the second and has that rest of the text before one. -/
inductive Reaches : Nat → List Char → Nat → List Char → Prop where
  | here {position : Nat} {text : List Char} : Reaches position text position text
  | blank {position stop : Nat} {c : Char} {text rest : List Char} (hblank : isBlank c = true)
      (h : Reaches (position + c.utf8Size) text stop rest) : Reaches position (c :: text) stop rest
  | spelling {position stop : Nat} {key : Key} {spelling text rest : List Char}
      (hbegins : Key.Begins (spelling ++ text) key spelling)
      (h : Reaches (position + byteLength spelling) text stop rest) :
      Reaches position (spelling ++ text) stop rest

/-- At this place there is something other than a blank, and no spelling fits. -/
inductive StuckAt (start : Nat) (text : List Char) (place : Nat) : Prop where
  | intro {c : Char} {rest : List Char} (hreaches : Reaches start text place (c :: rest))
      (hblank : isBlank c = false)
      (hmisfit : ∀ key spelling, Key.Spelled key spelling → ¬ spelling <+: c :: rest)

/-- A digit or a dot ends at this place, and blanks part it from the next one. -/
inductive PartsNumber (start : Nat) (text : List Char) : Nat → Prop where
  | intro {place : Nat} {key next : Key} {spelling blanks other rest : List Char}
      (hreaches : Reaches start text place (spelling ++ (blanks ++ rest)))
      (hbegins : Key.Begins (spelling ++ (blanks ++ rest)) key spelling)
      (hnumeric : key.isNumeric = true) (hapart : blanks ≠ [])
      (hblanks : ∀ c ∈ blanks, isBlank c = true) (hnext : Key.Begins rest next other)
      (hother : next.isNumeric = true) :
      PartsNumber start text (place + byteLength spelling)

variable {position start stop place : Nat} {text rest : List Char}

theorem Reaches.le (h : Reaches position text stop rest) : position ≤ stop := by
  induction h with
  | here => exact Nat.le_refl _
  | blank _ _ ih | spelling _ _ ih => omega

/-- A place that is reached is so many bytes further on as there are before the rest. -/
theorem Reaches.byteLength_eq (h : Reaches position text stop rest) :
    stop + byteLength rest = position + byteLength text := by
  induction h with
  | here => rfl
  | blank _ _ ih => rw [ih, byteLength, Nat.add_assoc]
  | spelling _ _ ih => rw [ih, byteLength_append, Nat.add_assoc]

theorem Reaches.trans {behind : List Char} (h : Reaches position text stop rest)
    (hrest : Reaches stop rest place behind) : Reaches position text place behind := by
  induction h with
  | here => exact hrest
  | blank hblank _ ih => exact .blank hblank (ih hrest)
  | spelling hbegins _ ih => exact .spelling hbegins (ih hrest)

theorem reaches_blanks {blanks : List Char} (h : ∀ c ∈ blanks, isBlank c = true) (position : Nat)
    (text : List Char) : Reaches position (blanks ++ text) (position + byteLength blanks) text := by
  induction blanks generalizing position with
  | nil => exact .here
  | cons c blanks ih =>
      obtain ⟨hblank, hblanks⟩ := List.forall_mem_cons.mp h
      have htail := ih hblanks (position + c.utf8Size)
      rw [Nat.add_assoc] at htail
      exact .blank hblank htail

theorem StuckAt.of_reaches (h : Reaches start text stop rest) (hstuck : StuckAt stop rest place) :
    StuckAt start text place := by
  obtain ⟨hreaches, hblank, hmisfit⟩ := hstuck
  exact ⟨h.trans hreaches, hblank, hmisfit⟩

theorem PartsNumber.of_reaches (h : Reaches start text stop rest)
    (hparts : PartsNumber stop rest place) : PartsNumber start text place := by
  obtain ⟨hreaches, hbegins, hnumeric, hapart, hblanks, hnext, hother⟩ := hparts
  exact ⟨h.trans hreaches, hbegins, hnumeric, hapart, hblanks, hnext, hother⟩

/-- One is stuck before the end of the text. -/
theorem StuckAt.lt (h : StuckAt start text place) : place < start + byteLength text := by
  obtain @⟨c, rest, hreaches, _, _⟩ := h
  have hpos := c.utf8Size_pos
  rw [← hreaches.byteLength_eq, byteLength]
  omega

end Text

open Text

variable {position start stop place : Nat} {text rest : List Char}

namespace Line

/-! ## A place where no spelling fits -/

/-- What is read up to a place does not depend on how the reading goes on there. -/
theorem readPlaced_of_reaches (h : Reaches position text stop rest) :
    ∃ before : List PlacedKey, (∀ placed ∈ before, placed.stop ≤ stop) ∧
      readPlaced position text = (readPlaced stop rest).map (before ++ ·) := by
  induction h with
  | here =>
      refine ⟨[], by simp, ?_⟩
      cases readPlaced _ _ <;> rfl
  | blank hblank _ ih =>
      obtain ⟨before, hbefore, hread⟩ := ih
      exact ⟨before, hbefore, (readPlaced_of_isBlank hblank _ _).trans hread⟩
  | @spelling position stop key spelling text rest hbegins h ih =>
      obtain ⟨before, hbefore, hread⟩ := ih
      refine ⟨⟨key, position, position + byteLength spelling⟩ :: before,
        List.forall_mem_cons.mpr ⟨h.le, hbefore⟩, ?_⟩
      rw [readPlaced_of_begins hbegins, hread]
      cases readPlaced stop rest <;> rfl

/-- Reading fails where one is stuck. -/
theorem readPlaced_eq_error_iff :
    readPlaced start text = .error place ↔ StuckAt start text place := by
  constructor
  · intro h
    fun_induction readPlaced start text with
    | case1 => cases h
    | case2 position c tail hblank ih => exact (ih h).of_reaches (.blank hblank .here)
    | case3 position c tail hblank hs =>
        cases h
        exact ⟨.here, by simpa using hblank, Key.spelled?_eq_none_iff.mp hs⟩
    | case4 position c tail hblank key width hs stop ih =>
        obtain ⟨spelling, hbegins, htext, htake⟩ := Key.append_of_spelled? hs
        have hstop : stop = position + byteLength spelling :=
          congrArg (position + byteLength ·) htake
        have hrest : StuckAt stop (tail.drop (width - 1)) place := by
          cases hread : readPlaced stop (tail.drop (width - 1)) with
          | error other =>
              rw [hread] at h
              exact ih (hread.trans h)
          | ok placed =>
              rw [hread] at h
              cases h
        rw [hstop] at hrest
        rw [← htext]
        exact hrest.of_reaches (.spelling hbegins .here)
  · rintro @⟨c, rest, hreaches, hblank, hmisfit⟩
    obtain ⟨before, _, hread⟩ := readPlaced_of_reaches hreaches
    rw [hread, readPlaced, hblank, Key.spelled?_eq_none_iff.mpr hmisfit]
    rfl

/-! ## A number in two parts -/

/-- The first of some keys is the end of a split number, or it can be left out. -/
theorem splitNumber?_cons_cases (first : PlacedKey) (rest : List PlacedKey) :
    splitNumber? (first :: rest) = some first.stop ∨
      splitNumber? (first :: rest) = splitNumber? rest := by
  cases rest with
  | nil => exact .inr rfl
  | cons second rest =>
      rw [splitNumber?]
      split
      · exact .inl rfl
      · exact .inr rfl

/-- Two digits or dots that stand apart are a split number, if none is before them. -/
theorem splitNumber?_of_apart {a b : PlacedKey} (ha : a.key.isNumeric = true)
    (hb : b.key.isNumeric = true) (hapart : a.stop ≠ b.start) (before rest : List PlacedKey) :
    ∃ found ∈ before ++ [a], splitNumber? (before ++ a :: b :: rest) = some found.stop := by
  induction before with
  | nil => exact ⟨a, by simp, by simp [splitNumber?, ha, hb, hapart]⟩
  | cons first before ih =>
      obtain ⟨found, hfound, hsplit⟩ := ih
      rcases splitNumber?_cons_cases first (before ++ a :: b :: rest) with hfirst | hlater
      · exact ⟨first, by simp, hfirst⟩
      · exact ⟨found, List.mem_cons_of_mem first hfound, hlater.trans hsplit⟩

/-- A number is found to be split no later than where blanks part it. -/
theorem splitNumber?_of_partsNumber {placed : List PlacedKey}
    (hread : readPlaced start text = .ok placed) (h : PartsNumber start text place) :
    ∃ found ≤ place, splitNumber? placed = some found := by
  obtain @⟨position, key, next, spelling, blanks, other, rest, hreaches, hbegins, hnumeric, hapart,
    hblanks, hnext, hother⟩ := h
  obtain ⟨before, hbefore, hsame⟩ := readPlaced_of_reaches hreaches
  obtain ⟨behind, rfl⟩ := hnext.fits
  rw [readPlaced_of_begins hbegins, readPlaced_blanks hblanks, readPlaced_of_begins hnext, hread]
    at hsame
  cases hlast : readPlaced (position + byteLength spelling + byteLength blanks + byteLength other)
      behind with
  | error fault =>
      rw [hlast] at hsame
      cases hsame
  | ok after =>
      rw [hlast] at hsame
      cases hsame
      let first : PlacedKey := ⟨key, position, position + byteLength spelling⟩
      let second : PlacedKey := ⟨next, position + byteLength spelling + byteLength blanks,
        position + byteLength spelling + byteLength blanks + byteLength other⟩
      have hne : first.stop ≠ second.start := by
        have hzero := mt byteLength_eq_zero_iff.mp hapart
        simp only [first, second]
        omega
      have hparted : ∃ found ∈ before ++ [first],
          splitNumber? (before ++ first :: second :: after) = some found.stop :=
        splitNumber?_of_apart hnumeric hother hne before after
      obtain ⟨found, hfound, hsplit⟩ := hparted
      refine ⟨found.stop, ?_, hsplit⟩
      rcases List.mem_append.mp hfound with hmem | hmem
      · exact (hbefore found hmem).trans (Nat.le_add_right _ _)
      · rw [List.mem_singleton.mp hmem]

/-- Blanks part a number where it is found to be split. -/
theorem partsNumber_of_spells {pieces : List SpelledKey} (h : Spells pieces text) (start : Nat)
    (hsplit : splitNumber? (SpelledKey.place start pieces) = some place) :
    PartsNumber start text place := by
  induction h generalizing start with
  | nil => cases hsplit
  | @cons piece pieces rest hbegins hblanks hrest ih =>
      have hbehind := ih (start + byteLength piece.text)
      rw [SpelledKey.text, List.append_assoc] at hbegins ⊢
      cases hrest with
      | nil => cases hsplit
      | @cons next pieces rest hnext _ _ =>
          rw [splitNumber?_place_cons_cons] at hsplit
          split at hsplit
          · next hparts =>
              cases hsplit
              exact .intro .here hbegins hparts.1 hparts.2.2 hblanks hnext hparts.2.1
          · refine (hbehind hsplit).of_reaches (.spelling hbegins ?_)
            have hwidth : byteLength piece.text =
                byteLength piece.spelling + byteLength piece.blanks := byteLength_append _ _
            rw [hwidth, ← Nat.add_assoc]
            exact reaches_blanks hblanks _ _

theorem partsNumber_of_splitNumber? {placed : List PlacedKey}
    (hread : readPlaced start text = .ok placed) (hsplit : splitNumber? placed = some place) :
    PartsNumber start text place := by
  obtain ⟨lead, pieces, rest, hlead, rfl, hspells, rfl⟩ :=
    exists_spells_of_readPlaced start text placed hread
  exact (partsNumber_of_spells hspells _ hsplit).of_reaches (reaches_blanks hlead start rest)

/-- A number is found to be split at the first place where blanks part one. -/
theorem splitNumber?_eq_some_iff {placed : List PlacedKey}
    (hread : readPlaced start text = .ok placed) :
    splitNumber? placed = some place ↔ IsLeast {other | PartsNumber start text other} place := by
  constructor
  · intro hsplit
    refine ⟨partsNumber_of_splitNumber? hread hsplit, fun other hother => ?_⟩
    obtain ⟨found, hle, hfound⟩ := splitNumber?_of_partsNumber hread hother
    cases hsplit.symm.trans hfound
    exact hle
  · intro hleast
    obtain ⟨found, hle, hfound⟩ := splitNumber?_of_partsNumber hread hleast.1
    have hge := hleast.2 (partsNumber_of_splitNumber? hread hfound)
    rw [hfound, Nat.le_antisymm hle hge]

/-! ## The reasons -/

theorem read_eq_unknownSymbol_iff :
    read text = .error (.unknownSymbol place) ↔ StuckAt 0 text place := by
  rw [← readPlaced_eq_error_iff]
  cases hread : readPlaced 0 text with
  | error position => simp [read_of_readPlaced_error hread]
  | ok placed =>
      rw [read_of_readPlaced_ok hread]
      cases splitNumber? placed <;> simp

theorem read_eq_splitNumber_iff :
    read text = .error (.splitNumber place) ↔
      (∀ other, ¬ StuckAt 0 text other) ∧ IsLeast {other | PartsNumber 0 text other} place := by
  cases hread : readPlaced 0 text with
  | error position =>
      have hstuck := readPlaced_eq_error_iff.mp hread
      simp only [read_of_readPlaced_error hread, Except.error.injEq, reduceCtorEq, false_iff,
        not_and]
      exact fun hnone => absurd hstuck (hnone position)
  | ok placed =>
      have hnone : ∀ other, ¬ StuckAt 0 text other := by
        intro other hstuck
        cases hread.symm.trans (readPlaced_eq_error_iff.mpr hstuck)
      rw [← splitNumber?_eq_some_iff hread, read_of_readPlaced_ok hread]
      cases hsplit : splitNumber? placed with
      | none => simp
      | some position => simp [hnone]

/-- A text is rejected for the place where no spelling fits or, if there is none in all of it, for
the first place where blanks part a number. Nothing else makes a text unreadable. -/
theorem ofText_rejection (text reason : String) :
    ((∃ fault, ofText text = .error fault ∧ fault.reason = reason) ↔
        (∃ place < byteLength text.toList, StuckAt 0 text.toList place ∧
          reason = s!"unexpected symbol at {place}") ∨
        (∀ place, ¬ StuckAt 0 text.toList place) ∧
          ∃ place, IsLeast {other | PartsNumber 0 text.toList other} place ∧
            reason = s!"space inside a number at {place}") ∧
      ∀ calculator : Calculator,
        (calculator.evaluate text).result = .error (.unreadable reason) ↔
          ∃ fault, ofText text = .error fault ∧ fault.reason = reason := by
  refine ⟨⟨?_, ?_⟩, fun calculator => ?_⟩
  · rintro ⟨fault, hread, rfl⟩
    obtain ⟨place, rfl | rfl⟩ := fault_of_read hread
    · have hstuck := read_eq_unknownSymbol_iff.mp hread
      exact .inl ⟨place, by simpa using hstuck.lt, hstuck, rfl⟩
    · obtain ⟨hnone, hleast⟩ := read_eq_splitNumber_iff.mp hread
      exact .inr ⟨hnone, place, hleast, rfl⟩
  · rintro (⟨place, _, hstuck, rfl⟩ | ⟨hnone, place, hleast, rfl⟩)
    · exact ⟨.unknownSymbol place, read_eq_unknownSymbol_iff.mpr hstuck, rfl⟩
    · exact ⟨.splitNumber place, read_eq_splitNumber_iff.mpr ⟨hnone, hleast⟩, rfl⟩
  · cases hread : ofText text with
    | error fault => simp [Calculator.evaluate, hread]
    | ok line =>
        obtain ⟨_, hevaluates⟩ := Calculator.exists_evaluates_of_ofText hread calculator
        have hne : (calculator.evaluate text).result ≠ .error (.unreadable reason) :=
          hevaluates.ne_unreadable reason
        simp [hne]

-- the dollar counts, not the number that is split before it
example : ofText "1 2+$" = .error (.unknownSymbol 4) := by decide +kernel

end Line
end PocketCalc
