import Mathlib.Data.List.Forall2
import PocketCalc.Calculator
import PocketCalc.Proofs.Line.Language

/-! Blanks that are inserted in a line. They may stand before the first key and behind every key,
and make no difference as long as they part no number. If they do, the first number that they part
makes the text unreadable. -/

namespace PocketCalc

namespace Key

theorem isBlank_of_mem_spellings :
    ∀ entry ∈ spellings, entry.1.any Text.isBlank = false := by
  decide

/-- No spelling contains a blank. -/
theorem Spelled.isBlank {key : Key} {spelling : List Char} (h : key.Spelled spelling) :
    ∀ c ∈ spelling, Text.isBlank c = false := by
  have hhead := h.isBlank_head
  cases h with
  | named hmem =>
      have hnone := isBlank_of_mem_spellings _ hmem
      simpa using hnone
  | digit | letter => simpa using hhead

end Key

/-- A word without blanks that is found where blanks are is empty, or there are none. -/
theorem Text.eq_nil_or_of_prefix {word blanks rest : List Char}
    (hword : ∀ c ∈ word, isBlank c = false) (hblanks : ∀ c ∈ blanks, isBlank c = true)
    (h : word <+: blanks ++ rest) : word = [] ∨ blanks = [] := by
  cases blanks with
  | nil => exact .inr rfl
  | cons b blanks =>
      cases word with
      | nil => exact .inl rfl
      | cons c word =>
          obtain ⟨rfl, _⟩ := List.cons_prefix_cons.mp h
          have hblank := hblanks c List.mem_cons_self
          rw [hword c List.mem_cons_self] at hblank
          cases hblank

namespace SpelledKey

/-- The same key in the same spelling, with blanks inserted behind it. -/
structure Widens (piece wider : SpelledKey) : Prop where
  key_eq : wider.key = piece.key
  spelling_eq : wider.spelling = piece.spelling
  sublist : piece.blanks.Sublist wider.blanks
  isBlank : ∀ c ∈ wider.blanks, Text.isBlank c = true

/-- The first key that blanks part from another one of the same number, and the keys before it. -/
structure FirstParted (pieces before : List SpelledKey) (left : SpelledKey) : Prop where
  keepNumbers : KeepNumbers (before ++ [left])
  isNumeric : left.key.isNumeric = true
  blanks_ne_nil : left.blanks ≠ []
  next : ∃ right behind, pieces = before ++ left :: right :: behind ∧ right.key.isNumeric = true

variable {pieces wider : List SpelledKey}

theorem map_key_of_widens (h : List.Forall₂ Widens pieces wider) :
    wider.map key = pieces.map key := by
  induction h with
  | nil => rfl
  | cons hpiece _ ih => rw [List.map_cons, List.map_cons, hpiece.key_eq, ih]

/-- What a text without blanks begins with was there before blanks were inserted. -/
theorem prefix_of_widens (h : List.Forall₂ Widens pieces wider) {word : List Char}
    (hword : ∀ c ∈ word, Text.isBlank c = false) (hfits : word <+: wider.flatMap text) :
    word <+: pieces.flatMap text := by
  induction h generalizing word with
  | nil => exact hfits
  | @cons piece wide pieces wider hpiece _ ih =>
      rw [List.flatMap_cons, text, hpiece.spelling_eq, List.append_assoc] at hfits
      rw [List.flatMap_cons, text, List.append_assoc]
      have hspelling := List.prefix_append piece.spelling (wide.blanks ++ wider.flatMap text)
      rcases List.prefix_or_prefix_of_prefix hfits hspelling with hwithin | ⟨tail, rfl⟩
      · exact hwithin.trans (List.prefix_append _ _)
      · -- the word goes on behind the spelling only if no blank does
        rw [List.prefix_append_right_inj] at hfits ⊢
        have htail : ∀ c ∈ tail, Text.isBlank c = false := fun c hc =>
          hword c (List.mem_append_right _ hc)
        obtain rfl | hnone := Text.eq_nil_or_of_prefix htail hpiece.isBlank hfits
        · exact List.nil_prefix
        · have hkept : piece.blanks = [] := List.sublist_nil.mp (hnone ▸ hpiece.sublist)
          rw [hnone] at hfits
          rw [hkept]
          exact ih htail hfits

end SpelledKey

open SpelledKey

variable {pieces wider : List SpelledKey}

theorem Spells.eq_flatMap {text : List Char} (h : Spells pieces text) :
    text = pieces.flatMap SpelledKey.text := by
  induction h with
  | nil => rfl
  | cons _ _ _ ih => rw [List.flatMap_cons, ← ih]

/-- Blanks behind a key keep what follows from continuing its spelling, if anything. -/
theorem Spells.widen {text : List Char} (h : Spells pieces text)
    (hwider : List.Forall₂ Widens pieces wider) : Spells wider (wider.flatMap SpelledKey.text) := by
  induction h generalizing wider with
  | nil =>
      cases hwider
      exact .nil
  | @cons piece pieces rest hbegins hblanks hrest ih =>
      have hall := hwider
      cases hwider with
      | @cons _ wide _ wider hpiece hpieces =>
          refine .cons ⟨?_, ?_, ?_⟩ hpiece.isBlank (ih hpieces)
          · rw [hpiece.key_eq, hpiece.spelling_eq]
            exact hbegins.spelled
          · rw [SpelledKey.text, List.append_assoc]
            exact List.prefix_append _ _
          · intro other longer hother hfits
            have hbefore := prefix_of_widens hall hother.isBlank hfits
            rw [List.flatMap_cons, ← hrest.eq_flatMap] at hbefore
            rw [hpiece.spelling_eq]
            exact hbegins.longest other longer hother hbefore

namespace Dissection

def text (cut : Dissection) : List Char := cut.lead ++ cut.pieces.flatMap SpelledKey.text

/-- The same keys in the same spellings, with blanks inserted before, between and behind them. -/
structure Widens (cut wider : Dissection) : Prop where
  sublist : cut.lead.Sublist wider.lead
  isBlank : ∀ c ∈ wider.lead, Text.isBlank c = true
  pieces : List.Forall₂ SpelledKey.Widens cut.pieces wider.pieces

variable {cut wider : Dissection}

theorem Dissects.text_eq {text : List Char} (h : cut.Dissects text) : cut.text = text := by
  obtain ⟨rest, rfl, hrest⟩ := h.spells
  rw [Dissection.text, ← hrest.eq_flatMap]

/-- The wider text is cut in the same way as long as no number is parted. -/
theorem Dissects.widen {text : List Char} (h : cut.Dissects text) (hwider : cut.Widens wider)
    (hkeep : KeepNumbers wider.pieces) : wider.Dissects wider.text := by
  obtain ⟨_, _, hrest⟩ := h.spells
  exact ⟨hwider.isBlank, ⟨_, rfl, hrest.widen hwider.pieces⟩, hkeep⟩

theorem Widens.line_eq (h : cut.Widens wider) : wider.line = cut.line := map_key_of_widens h.pieces

end Dissection

namespace Line

/-- Where blanks part some number there is a first one, and it is found to be split. -/
theorem exists_firstParted (h : ¬ KeepNumbers pieces) (position : Nat) :
    ∃ before left, FirstParted pieces before left ∧
      splitNumber? (SpelledKey.place position pieces) =
        some (position + Text.byteLength (before.flatMap SpelledKey.text ++ left.spelling)) := by
  induction pieces generalizing position with
  | nil => exact absurd .nil h
  | cons piece pieces ih =>
      cases pieces with
      | nil => exact absurd (.singleton piece) h
      | cons next pieces =>
          rw [splitNumber?_place_cons_cons]
          by_cases hparted :
              piece.key.isNumeric = true ∧ next.key.isNumeric = true ∧ piece.blanks ≠ []
          · obtain ⟨hfirst, hsecond, hapart⟩ := hparted
            refine ⟨[], piece, ⟨.singleton piece, hfirst, hapart, next, pieces, rfl, hsecond⟩, ?_⟩
            rw [if_pos ⟨hfirst, hsecond, hapart⟩]
            rfl
          · have hkept :
                piece.key.isNumeric = true → next.key.isNumeric = true → piece.blanks = [] :=
              fun hfirst hsecond => by_contra fun hapart => hparted ⟨hfirst, hsecond, hapart⟩
            have hlater : ¬ KeepNumbers (next :: pieces) :=
              fun hkeep => h (List.isChain_cons_cons.mpr ⟨hkept, hkeep⟩)
            obtain ⟨before, left, hleft, hsplit⟩ :=
              ih hlater (position + Text.byteLength piece.text)
            obtain ⟨right, behind, hpieces, hright⟩ := hleft.next
            have hhead : (before ++ [left]).head? = some next := by
              have hsame := congrArg List.head? hpieces
              cases before <;> exact hsame.symm
            refine ⟨piece :: before, left, ⟨?_, hleft.isNumeric, hleft.blanks_ne_nil, right, behind,
              congrArg (piece :: ·) hpieces, hright⟩, ?_⟩
            · refine List.isChain_cons.mpr ⟨fun other hother => ?_, hleft.keepNumbers⟩
              cases hhead.symm.trans hother
              exact hkept
            · rw [if_neg hparted, hsplit, List.flatMap_cons, List.append_assoc,
                Text.byteLength_append piece.text, Nat.add_assoc]

variable {text : List Char} {cut : Dissection}

theorem readPlaced_widen (h : cut.Dissects text) {wider : Dissection} (hwider : cut.Widens wider) :
    readPlaced 0 wider.text =
      .ok (SpelledKey.place (Text.byteLength wider.lead) wider.pieces) := by
  obtain ⟨_, _, hspells⟩ := h.spells
  rw [Dissection.text, readPlaced_blanks hwider.isBlank, Nat.zero_add,
    readPlaced_of_spells (hspells.widen hwider.pieces)]

/-- Blanks that part numbers are found at the first key that they part from the next. -/
theorem read_widen_of_parted (h : cut.Dissects text) {wider : Dissection}
    (hwider : cut.Widens wider) (hparted : ¬ KeepNumbers wider.pieces) :
    ∃ before left, FirstParted wider.pieces before left ∧
      read wider.text = .error (.splitNumber
        (Text.byteLength (wider.lead ++ before.flatMap SpelledKey.text ++ left.spelling))) := by
  obtain ⟨before, left, hleft, hsplit⟩ := exists_firstParted hparted (Text.byteLength wider.lead)
  refine ⟨before, left, hleft, ?_⟩
  rw [← Text.byteLength_append, ← List.append_assoc] at hsplit
  rw [read_of_readPlaced_ok (readPlaced_widen h hwider), hsplit]
  rfl

/-- Blanks may be inserted in a line before its first key and behind every key. If they part no
digit or dot from the next one, the text is still the same line and has the same value in every
state. If they do, it is unreadable, and the end of the first one that is parted is to blame. -/
theorem ofText_widen {text : String} {line : Line} (h : ofText text = .ok line) :
    ∃ cut : Dissection, cut.Dissects text.toList ∧ cut.text = text.toList ∧ cut.line = line ∧
      ∀ wider, cut.Widens wider →
        (KeepNumbers wider.pieces → ofText (String.ofList wider.text) = .ok line ∧
          ∀ calculator : Calculator,
            calculator.evaluate (String.ofList wider.text) = calculator.evaluate text) ∧
        (¬ KeepNumbers wider.pieces → ∃ before left place, FirstParted wider.pieces before left ∧
          place = Text.byteLength
            (wider.lead ++ before.flatMap SpelledKey.text ++ left.spelling) ∧
          ofText (String.ofList wider.text) = .error (.splitNumber place) ∧
          ∀ calculator : Calculator, (calculator.evaluate (String.ofList wider.text)).result =
            .error (.unreadable s!"space inside a number at {place}")) := by
  obtain ⟨cut, hcut, hline⟩ := read_eq_ok_iff_dissects.mp h
  refine ⟨cut, hcut, hcut.text_eq, hline,
    fun wider hwider => ⟨fun hkeep => ?_, fun hparted => ?_⟩⟩
  · have hread : ofText (String.ofList wider.text) = .ok line := by
      rw [ofText, String.toList_ofList]
      exact read_eq_ok_iff_dissects.mpr
        ⟨wider, hcut.widen hwider hkeep, hwider.line_eq.trans hline⟩
    refine ⟨hread, fun calculator => ?_⟩
    rw [Calculator.evaluate, Calculator.evaluate, hread, h]
  · obtain ⟨before, left, hleft, hread⟩ := read_widen_of_parted hcut hwider hparted
    rw [← String.toList_ofList (l := wider.text), ← ofText] at hread
    refine ⟨before, left, _, hleft, rfl, hread, fun calculator => ?_⟩
    rw [Calculator.evaluate, hread]
    rfl

/-- Blanks may be inserted everywhere in `12+3` but behind its first digit. -/
theorem ofText_widen_sum :
    ofText "12+3" = .ok [.digit 1, .digit 2, .operator .add, .digit 3] ∧
      ofText " 12\t+3 " = .ok [.digit 1, .digit 2, .operator .add, .digit 3] ∧
      ofText "1 2+3" = .error (.splitNumber 1) := by
  have hread : ofText "12+3" = .ok [.digit 1, .digit 2, .operator .add, .digit 3] := by
    decide +kernel
  have hcut : Dissection.Dissects ⟨[], [⟨.digit 1, ['1'], []⟩, ⟨.digit 2, ['2'], []⟩,
      ⟨.operator .add, ['+'], []⟩, ⟨.digit 3, ['3'], []⟩]⟩ "12+3".toList := by
    refine ⟨by simp, ⟨_, rfl, ?_⟩, by simp [KeepNumbers]⟩
    have hthree := @Spells.cons ⟨.digit 3, ['3'], []⟩ _ _ (.of_spelled?_eq rfl) (by simp) .nil
    have hsum := @Spells.cons ⟨.operator .add, ['+'], []⟩ _ _ (.of_spelled?_eq rfl) (by simp)
      hthree
    have htwo := @Spells.cons ⟨.digit 2, ['2'], []⟩ _ _ (.of_spelled?_eq rfl) (by simp) hsum
    exact @Spells.cons ⟨.digit 1, ['1'], []⟩ _ _ (.of_spelled?_eq rfl) (by simp) htwo
  have hwidens (lead first second last : List Char)
      (h : ∀ blanks ∈ [lead, first, second, last], ∀ c ∈ blanks, Text.isBlank c = true) :
      Dissection.Widens ⟨[], [⟨.digit 1, ['1'], []⟩, ⟨.digit 2, ['2'], []⟩,
        ⟨.operator .add, ['+'], []⟩, ⟨.digit 3, ['3'], []⟩]⟩
      ⟨lead, [⟨.digit 1, ['1'], first⟩, ⟨.digit 2, ['2'], second⟩,
        ⟨.operator .add, ['+'], []⟩, ⟨.digit 3, ['3'], last⟩]⟩ := by
    simp only [List.forall_mem_cons, List.not_mem_nil, false_implies, implies_true] at h
    obtain ⟨hlead, hfirst, hsecond, hlast, _⟩ := h
    exact ⟨List.nil_sublist _, hlead, .cons ⟨rfl, rfl, List.nil_sublist _, hfirst⟩ <|
      .cons ⟨rfl, rfl, List.nil_sublist _, hsecond⟩ <|
        .cons ⟨rfl, rfl, List.nil_sublist _, by simp⟩ <|
          .cons ⟨rfl, rfl, List.nil_sublist _, hlast⟩ .nil⟩
  obtain ⟨cut, hcut', _, _, hwider⟩ := ofText_widen hread
  obtain rfl := hcut'.unique hcut
  refine ⟨hread, ?_, ?_⟩
  · have hspaced := hwidens [' '] [] ['\t'] [' '] (by simp [Text.isBlank])
    exact ((hwider _ hspaced).1 (by simp [KeepNumbers, Key.isNumeric])).1
  · have hspaced := hwidens [] [' '] [] [] (by simp [Text.isBlank])
    obtain ⟨before, left, place, hleft, rfl, hfault, _⟩ :=
      (hwider _ hspaced).2 (by simp [KeepNumbers, Key.isNumeric])
    obtain ⟨right, behind, hpieces, _⟩ := hleft.next
    have hkeep := hleft.keepNumbers
    cases before with
    | nil =>
        cases hpieces
        exact hfault
    | cons first before =>
        -- the two digits would be next to each other in what no blank parts
        obtain ⟨rfl, hrest⟩ := List.cons.inj hpieces
        cases before with
        | nil =>
            obtain ⟨rfl, _⟩ := List.cons.inj hrest
            simp [KeepNumbers, Key.isNumeric] at hkeep
        | cons second before =>
            obtain ⟨rfl, _⟩ := List.cons.inj hrest
            simp [KeepNumbers, Key.isNumeric] at hkeep

end Line
end PocketCalc
